import Mathlib.Data.List.Induction
import BoxLayout.Proofs.Number.Sum
import BoxLayout.Proofs.Layout.Greedy
import BoxLayout.Proofs.Layout.Split
import BoxLayout.Proofs.Layout.Unwrapped

namespace BoxLayout

-- Runs of a wrapping container. A run goes on until a child asks for the next one or
-- would make it too long, and that child alone carries the mark of it.

def Box.lengthOnRun (b : Box) (axis : Axis) : Single := if b.flags.fills axis then 0 else b.extent axis

def addOnRun (axis : Axis) (length : Single) (b : Box) : Single := length + b.margins.total axis + b.lengthOnRun axis

def runLength (axis : Axis) (flow : List Box) : Single := flow.foldl (addOnRun axis) 0

def Box.Overruns (axis : Axis) (space : Single) (flow : List Box) (b : Box) : Prop :=
  b.flags.forceBreak = true ∨ space + Run.tolerance < runLength axis (flow ++ [b])

instance (axis : Axis) (space : Single) (flow : List Box) (b : Box) : Decidable (b.Overruns axis space flow) := by
  unfold Box.Overruns; infer_instance

theorem runLength_concat (axis : Axis) (flow : List Box) (b : Box) :
    runLength axis (flow ++ [b]) = addOnRun axis (runLength axis flow) b := by
  rw [runLength,List.foldl_append]
  rfl

theorem runLength_ne_negative_zero (axis : Axis) (flow : List Box) : runLength axis flow ≠ .zero true := by
  induction flow using List.reverseRecOn with
  | nil => exact (by decide : (0 : Single) ≠ .zero true)
  | append_singleton flow b ih =>
      rw [runLength_concat]
      exact Single.add_ne_negative_zero (Single.add_ne_negative_zero ih)

def markRuns (axis : Axis) (space : Single) : List Box → List Box → List Box
  | _,[] => []
  | flow,b :: rest =>
      if b.flags.inFlow = false then b :: markRuns axis space flow rest
      else if flow ≠ [] ∧ b.Overruns axis space flow then b.withBreak true :: markRuns axis space [b] rest
      else b :: markRuns axis space (flow ++ [b]) rest

theorem overruns_unmarked (axis : Axis) (space : Single) (flow : List Box) (b : Box) :
    (b.withBreak false).Overruns axis space (flow.map (·.withBreak false)) ↔ b.Overruns axis space flow := by
  have length : runLength axis (flow.map (·.withBreak false) ++ [b.withBreak false]) = runLength axis (flow ++ [b]) := by
    rw [runLength_concat,runLength_concat,runLength,List.foldl_map]
    rfl
  unfold Box.Overruns
  rw [length]
  rfl

theorem markRuns_related (axis : Axis) (space : Single) (flow xs : List Box) :
    List.Forall₂ (fun a b => b = a ∨ a.flags.inFlow = true ∧ b = a.withBreak true) xs (markRuns axis space flow xs) := by
  induction xs generalizing flow with
  | nil => exact .nil
  | cons b rest ih =>
      simp only [markRuns]
      split
      · exact .cons (.inl rfl) (ih _)
      · rename_i flows
        split
        · exact .cons (.inr ⟨by simpa using flows,rfl⟩) (ih _)
        · exact .cons (.inl rfl) (ih _)

theorem marks_markRuns {axis : Axis} {space : Single} {xs : List Box} (unmarked : ∀ b ∈ xs, b.flags.isBreak = false)
    (flow : List Box) : ((markRuns axis space flow xs).filter (·.flags.inFlow)).map (·.flags.isBreak) =
      openings (fun flow b => b.Overruns axis space flow) flow (xs.filter (·.flags.inFlow)) := by
  induction xs generalizing flow with
  | nil => rfl
  | cons b rest ih =>
      have later := ih fun c member => unmarked c (List.mem_cons_of_mem _ member)
      by_cases flows : b.flags.inFlow = true
      · have flows' : (b.withBreak true).flags.inFlow = true := flows
        simp only [markRuns,List.filter_cons,flows,Bool.true_eq_false,if_false,if_true,openings]
        split
        · simp only [List.filter_cons,flows',if_true,List.map_cons,later]
          rfl
        · simp only [List.filter_cons,flows,if_true,List.map_cons,later,unmarked b List.mem_cons_self]
      · have passed := Bool.eq_false_iff.mpr flows
        simp only [markRuns,List.filter_cons,passed,if_true,Bool.false_eq_true,if_false,later]

namespace Run
variable {axis : Axis} {space : Single} {run : Run} {flow xs : List Box} {b : Box}

def standing (run : Run) : List Box := run.members.filter (·.flags.inFlow)

structure Counts (axis : Axis) (run : Run) (flow : List Box) : Prop where
  used : run.used = runLength axis flow
  total : run.total = flow.length

theorem counts_empty (axis : Axis) : empty.Counts axis [] := ⟨rfl,rfl⟩

theorem Counts.pass (counts : run.Counts axis flow) (b : Box) : (run.pass b).Counts axis flow := ⟨counts.used,counts.total⟩

theorem Counts.extended (counts : run.Counts axis flow) (b : Box) : run.extended axis b = runLength axis (flow ++ [b]) := by
  unfold Run.extended
  rw [counts.used,runLength_concat,addOnRun,Box.lengthOnRun]
  split
  · exact (Single.add_zero_of_ne (Single.add_ne_negative_zero (runLength_ne_negative_zero axis flow))).symm
  · rfl

theorem Counts.accept (counts : run.Counts axis flow) (b : Box) : (run.accept axis b).Counts axis (flow ++ [b]) := by
  refine ⟨counts.extended b,?_⟩
  rw [List.length_append,← counts.total]
  rfl

theorem counts_first (axis : Axis) (b : Box) (mark : Bool) : (empty.accept axis (b.withBreak mark)).Counts axis [b] :=
  ⟨(counts_empty axis).extended b,rfl⟩

theorem Counts.ends_iff (counts : run.Counts axis flow) (b : Box) :
    run.Ends axis space b ↔ flow ≠ [] ∧ b.Overruns axis space flow := by
  unfold Ends Box.Overruns
  rw [counts.total,counts.extended,List.length_pos_iff,or_comm]

theorem members_build (counts : run.Counts axis flow) :
    (build axis space true run xs).flatMap members = run.members ++ markRuns axis space flow xs := by
  induction xs generalizing run flow with
  | nil => simp only [build,markRuns,List.flatMap_cons,List.flatMap_nil]
  | cons b rest ih =>
      simp only [build,markRuns]
      split
      · rw [ih (counts.pass b),pass,List.append_assoc]
        rfl
      · simp only [true_and,counts.ends_iff]
        split
        · rw [List.flatMap_cons,ih (counts_first axis b true)]
          rfl
        · rw [ih (counts.accept b),accept,List.append_assoc]
          rfl

theorem standing_pass (flows : b.flags.inFlow = false) (run : Run) : (run.pass b).standing = run.standing := by
  simp [standing,pass,flows]

theorem standing_accept (flows : b.flags.inFlow = true) (axis : Axis) (run : Run) : (run.accept axis b).standing = run.standing ++ [b] := by
  simp [standing,accept,flows]

-- The runs are told from the marks again, once a child in flow stands on the first.
theorem standing_build {first : Box} {more : List Box} (counts : run.Counts axis flow) (begun : run.standing = first :: more)
    (inside : ∀ b ∈ more, b.flags.isBreak = false) (unmarked : ∀ b ∈ xs, b.flags.isBreak = false) :
    (build axis space true run xs).map standing =
      splitBefore (·.flags.isBreak) (run.standing ++ (markRuns axis space flow xs).filter (·.flags.inFlow)) := by
  induction xs generalizing run flow first more with
  | nil =>
      have whole := splitBefore_run first [] inside fun _ head => absurd head (Option.some_ne_none _).symm
      simp only [build,markRuns,List.map_cons,List.map_nil,List.filter_nil,begun]
      exact whole.symm
  | cons b rest ih =>
      have later : ∀ b ∈ rest, b.flags.isBreak = false := fun c member => unmarked c (List.mem_cons_of_mem _ member)
      by_cases flows : b.flags.inFlow = true
      · have flows' : (b.withBreak true).flags.inFlow = true := flows
        simp only [build,markRuns,flows,Bool.true_eq_false,if_false,true_and,counts.ends_iff]
        split
        · have alone : (empty.accept axis (b.withBreak true)).standing = [b.withBreak true] := standing_accept flows' axis empty
          have next := ih (counts_first axis b true) alone (fun _ member => absurd member List.not_mem_nil) later
          have opened := splitBefore_run first (b.withBreak true :: (markRuns axis space [b] rest).filter (·.flags.inFlow))
            inside fun _ head => Option.some.inj head ▸ rfl
          simp only [List.map_cons,next,alone,begun,List.filter_cons,flows',if_true]
          exact opened.symm
        · have longer := standing_accept flows axis run
          have next := ih (counts.accept b) (longer.trans (congrArg (· ++ [b]) begun)) ?_ later
          · simp only [next,longer,List.filter_cons,flows,if_true,List.append_assoc,List.singleton_append]
          · intro c member
            rcases List.mem_append.mp member with old | new
            · exact inside c old
            · exact List.mem_singleton.mp new ▸ unmarked b List.mem_cons_self
      · have passed := Bool.eq_false_iff.mpr flows
        have same := standing_pass passed run
        have next := ih (counts.pass b) (same.trans begun) inside later
        simp only [build,markRuns,passed,if_true,next,same,List.filter_cons,Bool.false_eq_true,if_false]

theorem standing_build_empty (some : xs.filter (·.flags.inFlow) ≠ []) (unmarked : ∀ b ∈ xs, b.flags.isBreak = false)
    (counts : run.Counts axis []) (begun : run.standing = []) : (build axis space true run xs).map standing =
      splitBefore (·.flags.isBreak) ((markRuns axis space [] xs).filter (·.flags.inFlow)) := by
  induction xs generalizing run with
  | nil => exact absurd rfl some
  | cons b rest ih =>
      have later : ∀ b ∈ rest, b.flags.isBreak = false := fun c member => unmarked c (List.mem_cons_of_mem _ member)
      by_cases flows : b.flags.inFlow = true
      · have first := standing_accept flows axis run
        rw [begun] at first
        have next : (build axis space true (run.accept axis b) rest).map standing = _ :=
          standing_build (counts.accept b) first (fun _ member => absurd member List.not_mem_nil) later
        simp only [build,markRuns,flows,Bool.true_eq_false,if_false,true_and,counts.ends_iff,ne_eq,not_true,false_and,
          List.filter_cons,if_true,next,first,List.nil_append,List.singleton_append]
      · have passed := Bool.eq_false_iff.mpr flows
        simp only [List.filter_cons,passed,Bool.false_eq_true,if_false] at some
        have next := ih some later (counts.pass b) ((standing_pass passed run).trans begun)
        simp only [build,markRuns,passed,if_true,next,List.filter_cons,Bool.false_eq_true,if_false]

def turn (axis : Axis) (space : Single) (run : Run) : List Box → Run × List Box
  | [] => (run,[])
  | b :: rest =>
      if b.flags.inFlow = false then turn axis space (run.pass b) rest
      else if run.Ends axis space b then (run,b.withBreak true :: rest)
      else turn axis space (run.accept axis b) rest

inductive Loops (axis : Axis) (space : Single) : List Box → List Run → Prop where
  | done : Loops axis space [] []
  | turn {children rest : List Box} {run : Run} {runs : List Run} : children ≠ [] →
      empty.turn axis space children = (run,rest) → Loops axis space rest runs → Loops axis space children (run :: runs)

theorem turn_members (axis : Axis) (space : Single) (run : Run) (xs : List Box) :
    run.members.length ≤ (run.turn axis space xs).1.members.length ∧
      (run.turn axis space xs).1.members.length + (run.turn axis space xs).2.length = run.members.length + xs.length := by
  induction xs generalizing run with
  | nil => exact ⟨Nat.le_refl _,rfl⟩
  | cons b rest ih =>
      have longer : ∀ next : Run, next.members = run.members ++ [b] →
          run.members.length ≤ (next.turn axis space rest).1.members.length ∧
            (next.turn axis space rest).1.members.length + (next.turn axis space rest).2.length =
              run.members.length + (b :: rest).length := by
        intro next members
        have deeper := ih next
        rw [members,List.length_append,List.length_singleton] at deeper
        rw [List.length_cons]
        omega
      simp only [turn]
      split
      · exact longer _ rfl
      · split
        · exact ⟨Nat.le_refl _,rfl⟩
        · exact longer _ rfl

theorem turn_shorter {xs : List Box} (axis : Axis) (space : Single) (some : xs ≠ []) :
    (empty.turn axis space xs).1.members ≠ [] ∧ (empty.turn axis space xs).2.length < xs.length := by
  obtain ⟨b,rest,rfl⟩ := List.exists_cons_of_ne_nil some
  have taken : ∃ next : Run, next.members = [b] ∧ empty.turn axis space (b :: rest) = next.turn axis space rest := by
    simp only [turn]
    split
    · exact ⟨empty.pass b,rfl,rfl⟩
    · rw [if_neg fun ends => absurd ends.1 (Nat.lt_irrefl 0)]
      exact ⟨empty.accept axis b,rfl,rfl⟩
  obtain ⟨next,members,equal⟩ := taken
  obtain ⟨grown,kept⟩ := turn_members axis space next rest
  rw [equal]
  rw [members,List.length_singleton] at grown kept
  rw [List.length_cons]
  exact ⟨List.ne_nil_of_length_pos grown,by omega⟩

theorem build_turn (axis : Axis) (space : Single) (run : Run) (xs : List Box) : build axis space true run xs =
    (run.turn axis space xs).1 ::
      if (run.turn axis space xs).2 = [] then [] else build axis space true empty (run.turn axis space xs).2 := by
  induction xs generalizing run with
  | nil => rfl
  | cons b rest ih =>
      simp only [build,turn,true_and]
      split
      · exact ih _
      · rename_i flows
        split
        · have first : ¬empty.Ends axis space (b.withBreak true) := fun ends => absurd ends.1 (Nat.lt_irrefl 0)
          have flows' : ¬(b.withBreak true).flags.inFlow = false := flows
          rw [if_neg (List.cons_ne_nil _ _),build,if_neg flows',if_neg fun ends => first ends.2]
        · exact ih _

theorem loops_build {xs : List Box} (axis : Axis) (space : Single) (some : xs ≠ []) :
    Loops axis space xs (build axis space true empty xs) := by
  induction length : xs.length using Nat.strongRecOn generalizing xs with
  | ind n ih =>
      have shorter := (turn_shorter axis space some).2
      rw [build_turn]
      refine .turn some rfl ?_
      split
      · rename_i none
        rw [none]
        exact .done
      · rename_i more
        exact ih _ (length ▸ shorter) more rfl

theorem Loops.members_ne_nil {xs : List Box} {axis : Axis} {space : Single} {runs : List Run} (loops : Loops axis space xs runs) :
    ∀ run ∈ runs, run.members ≠ [] := by
  induction loops with
  | done => exact fun _ member => absurd member List.not_mem_nil
  | @turn children rest run runs some turned _ ih =>
      intro other member
      rcases List.mem_cons.mp member with rfl | later
      · have taken := (turn_shorter axis space some).1
        rwa [turned] at taken
      · exact ih other later

theorem flags_placeAll (axis : Axis) (span : Span) (alignment : Alignment) (wrap : Bool) (runs : List Run) :
    (placeAll axis span alignment wrap runs).map Box.bothFlags = (runs.flatMap members).map Box.bothFlags := by
  induction runs with
  | nil => rfl
  | cons run rest ih =>
      cases rest with
      | nil =>
          rw [List.flatMap_cons,List.flatMap_nil,List.append_nil]
          exact Box.flags_placeFrom _ _ _ _ _
      | cons next rest =>
          rw [placeAll,List.map_append,List.flatMap_cons,List.map_append,ih,place,Box.flags_placeFrom]
          exact List.cons_ne_nil next rest

end Run

namespace Box

theorem marks_of_flags {xs ys : List Box} (same : xs.map bothFlags = ys.map bothFlags) :
    (xs.filter (·.flags.inFlow)).map (·.flags.isBreak) = (ys.filter (·.flags.inFlow)).map (·.flags.isBreak) := by
  have read : ∀ zs : List Box, (zs.filter (·.flags.inFlow)).map (·.flags.isBreak) =
      ((zs.map bothFlags).filter (·.2.inFlow)).map (·.2.isBreak) := by
    intro zs
    rw [List.filter_map,List.map_map]
    rfl
  rw [read,read,same]

theorem flags_stackChildren_wrapped (axis : Axis) (span : Span) (alignment : Alignment) (constrained : Bool) (xs : List Box) :
    (stackChildren axis span alignment true constrained xs).map bothFlags =
      (markRuns axis span.space [] (xs.map (·.withBreak false))).map bothFlags := by
  simp only [stackChildren,if_true]
  rw [map_flags,Run.flags_placeAll,Run.members_build (Run.counts_empty axis)]
  · rfl
  · intro b
    split <;> rfl

theorem marks_stackChildren (axis : Axis) (span : Span) (alignment : Alignment) (constrained : Bool) (xs : List Box) :
    ((stackChildren axis span alignment true constrained xs).filter (·.flags.inFlow)).map (·.flags.isBreak) =
      openings (fun flow b => b.Overruns axis span.space flow) [] (xs.filter (·.flags.inFlow)) := by
  have unmarked : ∀ b ∈ xs.map (·.withBreak false), b.flags.isBreak = false := by
    intro b member
    obtain ⟨_,_,rfl⟩ := List.mem_map.mp member
    rfl
  have flows : (xs.map (·.withBreak false)).filter (·.flags.inFlow) = (xs.filter (·.flags.inFlow)).map (·.withBreak false) :=
    List.filter_map
  rw [marks_of_flags (flags_stackChildren_wrapped axis span alignment constrained xs),marks_markRuns unmarked,flows]
  exact (openings_map _ [] _).symm.trans (openings_congr (fun run b => overruns_unmarked axis span.space run b) [] _)

theorem marks_placeChildren {b : Box} {axis : Axis} (stacked : b.arrangement.primaryAxis? = some axis)
    (wraps : b.arrangement.wraps = true) (children : List Box) : ((b.placeChildren axis children).filter (·.flags.inFlow)).map (·.flags.isBreak) =
      openings (fun run c => c.Overruns axis (b.contentSpan axis).space run) [] (children.filter (·.flags.inFlow)) := by
  simp only [placeChildren,stacked,wraps,if_true]
  exact marks_stackChildren axis (b.contentSpan axis) b.container.alignment b.container.constrainSize children

end Box
end BoxLayout
