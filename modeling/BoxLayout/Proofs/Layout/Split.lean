import Mathlib.Data.List.TakeWhile
import BoxLayout.Proofs.Layout.Transfer

namespace BoxLayout

-- Lists cut before the elements that open a run, run by run.

variable {α : Type} {starts kept : α → Bool}

theorem splitBefore_head (starts : α → Bool) (first : α) (rest : List α) :
    ∃ run runs, splitBefore starts (first :: rest) = (first :: run) :: runs := by
  have shape := splitBefore_shape starts (first :: rest)
  have joined := flatten_splitBefore starts (first :: rest)
  cases found : splitBefore starts (first :: rest) with
  | nil => exact absurd (shape.1.mp found) (List.cons_ne_nil _ _)
  | cons one more =>
      cases one with
      | nil => exact absurd rfl (shape.2 [] (by simp [found]))
      | cons x one =>
          rw [found,List.flatten_cons,List.cons_append] at joined
          obtain ⟨rfl,_⟩ := List.cons.inj joined
          exact ⟨one,more,rfl⟩

theorem splitBefore_cons (starts : α → Bool) (first next : α) (rest : List α) : splitBefore starts (first :: next :: rest) =
    if starts next then [first] :: splitBefore starts (next :: rest)
    else (splitBefore starts (next :: rest)).modifyHead (first :: ·) := by
  obtain ⟨run,runs,found⟩ := splitBefore_head starts next rest
  rw [splitBefore,found]
  rfl

theorem length_splitBefore (starts : α → Bool) (first : α) (rest : List α) :
    (splitBefore starts (first :: rest)).length = rest.countP starts + 1 := by
  induction rest generalizing first with
  | nil => rfl
  | cons next rest ih =>
      rw [splitBefore_cons,List.countP_cons]
      split
      · rw [List.length_cons,ih]
      · rw [List.length_modifyHead,ih]

theorem splitBefore_map {β : Type} (change : β → α) (xs : List β) :
    splitBefore starts (xs.map change) = (splitBefore (starts ∘ change) xs).map (List.map change) := by
  have each : List.Forall₂ (fun x y => change x = y) xs (xs.map change) := by
    rw [List.forall₂_map_right_iff,List.forall₂_same]
    exact fun _ _ => rfl
  have parts : List.Forall₂ (List.Forall₂ fun x y => change x = y) (splitBefore (starts ∘ change) xs)
      (splitBefore starts (xs.map change)) := splitBefore_related each fun same => congrArg starts same
  rw [← List.forall₂_eq_eq_eq,List.forall₂_map_right_iff]
  refine parts.flip.imp fun run run' mapped => ?_
  rw [← List.forall₂_eq_eq_eq,List.forall₂_map_right_iff]
  exact mapped.flip.imp fun _ _ same => same.symm

-- A run that no later element of it opens is the first of the list.
theorem splitBefore_run {run : List α} (first : α) (rest : List α) (inside : ∀ x ∈ run, starts x = false)
    (next : ∀ x, rest.head? = some x → starts x = true) :
    splitBefore starts (first :: run ++ rest) = (first :: run) :: splitBefore starts rest := by
  induction run generalizing first with
  | nil =>
      cases rest with
      | nil => rfl
      | cons x rest =>
          rw [List.singleton_append,splitBefore_cons,if_pos (next x rfl)]
  | cons x run ih =>
      have deeper := ih x fun y member => inside y (List.mem_cons_of_mem _ member)
      have goesOn : ¬starts x = true := Bool.eq_false_iff.mp (inside x List.mem_cons_self)
      rw [List.cons_append,List.cons_append,splitBefore_cons,if_neg goesOn,← List.cons_append,deeper]
      rfl

theorem exists_firstRun (starts : α → Bool) (xs : List α) : ∃ run rest, xs = run ++ rest ∧
    (∀ x ∈ run, starts x = false) ∧ ∀ x, rest.head? = some x → starts x = true := by
  refine ⟨xs.takeWhile (!starts ·),xs.dropWhile (!starts ·),List.takeWhile_append_dropWhile.symm,?_,?_⟩
  · intro x member
    simpa using List.mem_takeWhile_imp member
  · intro x head
    have opened := List.head?_dropWhile_not (!starts ·) xs
    rw [head] at opened
    simpa using opened

-- Leaving out elements that open no run leaves the runs as they are; only the first may
-- have nothing left.
theorem splitBefore_filter (opening : ∀ x, starts x = true → kept x = true) (xs : List α) : ∃ lead,
    (lead = [] ∨ lead = [[]]) ∧ (∀ x, xs.head? = some x → kept x = true → lead = []) ∧
      (splitBefore starts xs).map (List.filter kept) = lead ++ splitBefore starts (xs.filter kept) := by
  induction length : xs.length using Nat.strongRecOn generalizing xs with
  | ind n ih =>
      cases xs with
      | nil => exact ⟨[],.inl rfl,fun _ _ _ => rfl,rfl⟩
      | cons first more =>
          obtain ⟨run,rest,rfl,inside,next⟩ := exists_firstRun starts more
          have shorter : rest.length < n := by
            rw [← length,List.length_cons,List.length_append]
            omega
          obtain ⟨lead,_,none,later⟩ := ih _ shorter rest rfl
          have whole : (splitBefore starts rest).map (List.filter kept) = splitBefore starts (rest.filter kept) := by
            cases rest with
            | nil => rfl
            | cons x rest =>
                rw [later,none x rfl (opening x (next x rfl))]
                rfl
          have next' : ∀ x, (rest.filter kept).head? = some x → starts x = true := by
            cases rest with
            | nil => exact fun _ head => nomatch head
            | cons x rest =>
                rw [List.filter_cons_of_pos (opening x (next x rfl))]
                exact next
          have inside' : ∀ x ∈ run.filter kept, starts x = false := fun x member => inside x (List.mem_filter.mp member).1
          rw [← List.cons_append,splitBefore_run first rest inside next,List.map_cons,whole,List.filter_append]
          by_cases keeps : kept first = true
          · refine ⟨[],.inl rfl,fun _ _ _ => rfl,?_⟩
            rw [List.filter_cons_of_pos keeps,splitBefore_run first _ inside' next']
            rfl
          · have dropped : ∀ x, (first :: run ++ rest).head? = some x → ¬kept x = true := by
              intro x head
              cases head
              exact keeps
            rw [List.filter_cons_of_neg keeps]
            cases found : run.filter kept with
            | nil => exact ⟨[[]],.inr rfl,fun x head keep => absurd keep (dropped x head),rfl⟩
            | cons y ys =>
                rw [found] at inside'
                refine ⟨[],.inl rfl,fun _ _ _ => rfl,?_⟩
                rw [splitBefore_run y _ (fun x member => inside' x (List.mem_cons_of_mem _ member)) next']
                rfl

end BoxLayout
