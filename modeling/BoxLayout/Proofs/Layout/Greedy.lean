import Mathlib.Data.List.Infix
import Mathlib.Data.List.Basic

namespace BoxLayout

-- Cutting a list into runs, each as long as may be. The cut is told by the elements that
-- open a run, and no other cut has fewer runs.

variable {α β : Type} (ends : List α → α → Prop)

def GoesOn (part : List α) : Prop :=
  ∀ before run x after, part = before ++ run ++ x :: after → run ≠ [] → ¬ends run x

def Unended (run : List α) : Prop := ∀ first x after, run = first ++ x :: after → first ≠ [] → ¬ends first x

variable [∀ run x, Decidable (ends run x)]

def openings : List α → List α → List Bool
  | _,[] => []
  | run,x :: rest => if run ≠ [] ∧ ends run x then true :: openings [x] rest else false :: openings (run ++ [x]) rest

-- The first element opens no run, and one right after a run opens the next just if it
-- does not go on that one.
structure OpensGreedily (opens : α → Bool) (xs : List α) : Prop where
  first : ∀ x, xs.head? = some x → opens x = false
  later : ∀ before first run x after, xs = before ++ first :: run ++ x :: after →
    (before ≠ [] → opens first = true) → (∀ y ∈ run, opens y = false) → (opens x = true ↔ ends (first :: run) x)

def greedyRuns : List α → List α → List (List α)
  | run,[] => [run]
  | run,x :: rest => if run ≠ [] ∧ ends run x then run :: greedyRuns [x] rest else greedyRuns (run ++ [x]) rest

variable {ends} {opens : α → Bool} {run xs ys : List α} {x : α}

theorem openings_map (change : β → α) (run xs : List β) :
    openings (fun run x => ends (run.map change) (change x)) run xs = openings ends (run.map change) (xs.map change) := by
  induction xs generalizing run with
  | nil => rfl
  | cons x rest ih => simp only [openings,List.map_cons,ih,ne_eq,List.map_eq_nil_iff,List.map_append,List.map_nil]

theorem openings_congr {ends' : List α → α → Prop} [∀ run x, Decidable (ends' run x)] (same : ∀ run x, ends run x ↔ ends' run x)
    (run xs : List α) : openings ends run xs = openings ends' run xs := by
  induction xs generalizing run with
  | nil => rfl
  | cons x rest ih => simp only [openings,same,ih]

theorem openings_cons (found : (x :: xs).map opens = openings ends run (x :: xs)) :
    (opens x = true ↔ run ≠ [] ∧ ends run x) ∧
      xs.map opens = openings ends (if opens x then [x] else run ++ [x]) xs := by
  simp only [openings,List.map_cons] at found
  split at found
  · rename_i ended
    obtain ⟨here,rest⟩ := List.cons.inj found
    rw [here]
    exact ⟨iff_of_true rfl ended,rest⟩
  · rename_i goesOn
    obtain ⟨here,rest⟩ := List.cons.inj found
    rw [here]
    exact ⟨iff_of_false Bool.false_ne_true goesOn,rest⟩

theorem openings_drop (found : (xs ++ ys).map opens = openings ends run (xs ++ ys)) :
    ∃ run', ys.map opens = openings ends run' ys ∧ (xs = [] → run' = run) := by
  induction xs generalizing run with
  | nil => exact ⟨run,found,fun _ => rfl⟩
  | cons x rest ih =>
      obtain ⟨run',later,_⟩ := ih (openings_cons found).2
      exact ⟨run',later,nofun⟩

theorem openings_unopened (found : (xs ++ ys).map opens = openings ends run (xs ++ ys)) (unopened : ∀ x ∈ xs, opens x = false) :
    ys.map opens = openings ends (run ++ xs) ys := by
  induction xs generalizing run with
  | nil => rwa [List.append_nil]
  | cons x rest ih =>
      have later := (openings_cons found).2
      rw [unopened x List.mem_cons_self] at later
      rw [List.append_cons]
      exact ih later fun y member => unopened y (List.mem_cons_of_mem _ member)

theorem opensGreedily (found : xs.map opens = openings ends [] xs) : OpensGreedily ends opens xs where
  first x head := by
    cases xs with
    | nil => cases head
    | cons x' rest =>
        cases head
        exact Bool.eq_false_iff.mpr fun opened => ((openings_cons found).1.mp opened).1 rfl
  later before first run x after split opened unopened := by
    subst split
    rw [List.append_assoc] at found
    obtain ⟨begun,onwards,fresh⟩ := openings_drop found
    obtain ⟨_,inside⟩ := openings_cons onwards
    have alone : (if opens first then [first] else begun ++ [first]) = [first] := by
      by_cases start : before = []
      · rw [fresh start,List.nil_append,ite_self]
      · rw [if_pos (opened start)]
    rw [alone] at inside
    have reached := (openings_cons (openings_unopened inside unopened)).1
    exact reached.trans (and_iff_right (List.cons_ne_nil _ _))

theorem flatten_greedyRuns (ends : List α → α → Prop) [∀ run x, Decidable (ends run x)] (run xs : List α) :
    (greedyRuns ends run xs).flatten = run ++ xs := by
  induction xs generalizing run with
  | nil => rw [greedyRuns,List.flatten_singleton,List.append_nil]
  | cons x rest ih =>
      rw [greedyRuns]
      split
      · rw [List.flatten_cons,ih,List.singleton_append]
      · rw [ih,List.append_assoc,List.singleton_append]

theorem length_greedyRuns (ends : List α → α → Prop) [∀ run x, Decidable (ends run x)] (run xs : List α) :
    (greedyRuns ends run xs).length = (openings ends run xs).count true + 1 := by
  induction xs generalizing run with
  | nil => rfl
  | cons x rest ih =>
      rw [greedyRuns,openings]
      split
      · rw [List.length_cons,ih,List.count_cons_self]
      · rw [ih,List.count_cons_of_ne Bool.false_ne_true]

omit [∀ run x, Decidable (ends run x)] in
theorem Unended.concat (unended : Unended ends run) (here : run ≠ [] → ¬ends run x) : Unended ends (run ++ [x]) := by
  intro first y after split some
  rcases List.eq_nil_or_concat after with rfl | ⟨init,last,rfl⟩
  · obtain ⟨rfl,same⟩ := List.append_inj' split rfl
    cases same
    exact here some
  · rw [List.concat_eq_append,← List.cons_append,← List.append_assoc] at split
    exact unended first y init (List.append_inj' split rfl).1 some

omit [∀ run x, Decidable (ends run x)] in
theorem unended_singleton (ends : List α → α → Prop) (x : α) : Unended ends [x] := by
  rintro (_ | ⟨z,first⟩) y after split some
  · exact absurd rfl some
  · exact absurd (List.cons.inj split).2 (by simp)

theorem greedyRuns_unended (begun : run ≠ []) (unended : Unended ends run) (xs : List α) :
    ∀ part ∈ greedyRuns ends run xs, part ≠ [] ∧ Unended ends part := by
  induction xs generalizing run with
  | nil =>
      intro part member
      rw [List.mem_singleton.mp member]
      exact ⟨begun,unended⟩
  | cons x rest ih =>
      rw [greedyRuns]
      split
      · intro part member
        rcases List.mem_cons.mp member with rfl | later
        · exact ⟨begun,unended⟩
        · exact ih (List.cons_ne_nil x []) (unended_singleton ends x) part later
      · rename_i stays
        exact ih (by simp) (unended.concat fun some ended => stays ⟨some,ended⟩)

-- Inside a part that goes on at most one run begins, and none where one began with it.
theorem openings_inside {bound : Nat} (onwards : ∀ run, run ≠ [] → (openings ends run ys).count true ≤ bound)
    (part : List α) {rest : List α} (goesOn : GoesOn ends (part ++ rest)) (begun : run ≠ []) :
    (openings ends run (rest ++ ys)).count true ≤ bound + 1 ∧
      (run <:+ part → (openings ends run (rest ++ ys)).count true ≤ bound) := by
  induction rest generalizing part run with
  | nil =>
      have last := onwards run begun
      exact ⟨Nat.le_succ_of_le last,fun _ => last⟩
  | cons x rest ih =>
      rw [List.append_cons] at goesOn
      rw [List.cons_append,openings]
      split
      · rename_i ended
        have next := (ih _ goesOn (List.cons_ne_nil x [])).2 (List.suffix_append _ _)
        rw [List.count_cons_self]
        refine ⟨Nat.succ_le_succ next,?_⟩
        rintro ⟨before,rfl⟩
        rw [List.append_assoc,List.singleton_append] at goesOn
        exact absurd ended.2 (goesOn before run x rest rfl begun)
      · have longer : run ++ [x] ≠ [] := by simp
        obtain ⟨most,least⟩ := ih _ goesOn longer
        rw [List.count_cons_of_ne Bool.false_ne_true]
        refine ⟨most,?_⟩
        rintro ⟨before,rfl⟩
        exact least ⟨before,(List.append_assoc _ _ _).symm⟩

theorem openings_parts {parts : List (List α)} (some : ∀ part ∈ parts, part ≠ []) (goesOn : ∀ part ∈ parts, GoesOn ends part) :
    ∀ run, run ≠ [] → (openings ends run parts.flatten).count true ≤ parts.length := by
  induction parts with
  | nil => exact fun _ _ => Nat.le_refl 0
  | cons part later ih =>
      intro run begun
      have onwards := ih (fun other member => some other (List.mem_cons_of_mem _ member)) fun other member =>
        goesOn other (List.mem_cons_of_mem _ member)
      obtain ⟨x,rest,rfl⟩ := List.exists_cons_of_ne_nil (some part List.mem_cons_self)
      have here := goesOn (x :: rest) List.mem_cons_self
      rw [List.flatten_cons,List.cons_append,openings,List.length_cons]
      split
      · rw [List.count_cons_self]
        exact Nat.succ_le_succ ((openings_inside onwards [x] here (List.cons_ne_nil x [])).2 (List.suffix_refl _))
      · rw [List.count_cons_of_ne Bool.false_ne_true]
        exact (openings_inside onwards [x] here (by simp)).1

-- So there are as few of them as parts of any other cut.
theorem openings_fewest {parts : List (List α)} (some : ∀ part ∈ parts, part ≠ []) (goesOn : ∀ part ∈ parts, GoesOn ends part)
    (whole : parts.flatten ≠ []) : (openings ends [] parts.flatten).count true + 1 ≤ parts.length := by
  cases parts with
  | nil => exact absurd rfl whole
  | cons part later =>
      have onwards := openings_parts (fun other member => some other (List.mem_cons_of_mem _ member)) fun other member =>
        goesOn other (List.mem_cons_of_mem _ member)
      obtain ⟨x,rest,rfl⟩ := List.exists_cons_of_ne_nil (some part List.mem_cons_self)
      have here := goesOn (x :: rest) List.mem_cons_self
      rw [List.flatten_cons,List.cons_append,openings,if_neg fun ended => ended.1 rfl,List.count_cons_of_ne Bool.false_ne_true]
      exact Nat.succ_le_succ ((openings_inside onwards [x] here (List.cons_ne_nil x [])).2 (List.suffix_refl _))

end BoxLayout
