import BoxLayout.Proofs.Layout.Runs
import BoxLayout.Proofs.Forest.Partial
import BoxLayout.Proofs.Forest.Steps

namespace BoxLayout.Forest

-- The marks an update leaves are those of one greedy cut, made with the sizes that the
-- last size pass found.

variable {f measured laid : Forest} {key child : Key} {keys : List Key} {axis : Axis} {space : Single}

def lastSized (f : Forest) (axis : Axis) : Forest := f.lastPass.1.sizedOn f.lastPass.2 axis

def cleared (measured : Forest) (key : Key) : Box := (measured.box key).withBreak false

def markedAs (measured laid : Forest) (key : Key) : Box := (measured.box key).withBreak (laid.box key).flags.isBreak

def flow (f : Forest) (keys : List Key) : List Key := keys.filter fun key => (f.box key).flags.inFlow

-- The loop, started on the children without marks, ends with these runs: each child is on
-- one of them, none is empty, and what is in flow on them is what the marks tell.
structure LoopRuns (measured laid : Forest) (axis : Axis) (space : Single) (keys : List Key) (runs : List Run) : Prop where
  loops : Run.Loops axis space (keys.map measured.cleared) runs
  built : keys ≠ [] → runs = Run.build axis space true .empty (keys.map measured.cleared)
  nonempty : ∀ run ∈ runs, run.members ≠ []
  members : runs.flatMap Run.members = keys.map (markedAs measured laid)
  standing : laid.flow keys ≠ [] → runs.map Run.standing =
    (splitBefore (fun key => (laid.box key).flags.isBreak) (laid.flow keys)).map (List.map (markedAs measured laid))

-- The children of a container cut into runs: the first in flow is not marked, and a later
-- one just if it asks for a run or makes the one begun too long.
structure CutGreedily (measured laid : Forest) (axis : Axis) (space : Single) (keys : List Key) : Prop where
  marks : OpensGreedily (fun run key => (measured.box key).Overruns axis space (run.map measured.box))
    (fun key => (laid.box key).flags.isBreak) (laid.flow keys)
  runs : ∃ runs, LoopRuns measured laid axis space keys runs

theorem unmarked_cleared : ∀ b ∈ keys.map measured.cleared, b.flags.isBreak = false := by
  intro b member
  obtain ⟨_,_,rfl⟩ := List.mem_map.mp member
  rfl

theorem flow_cleared : (keys.map measured.cleared).filter (·.flags.inFlow) = (measured.flow keys).map measured.cleared :=
  List.filter_map

theorem flow_markedAs : (keys.map (markedAs measured laid)).filter (·.flags.inFlow) =
    (measured.flow keys).map (markedAs measured laid) := List.filter_map

section Flags
variable (flags : (keys.map laid.box).map Box.bothFlags =
  (markRuns axis space [] (keys.map measured.cleared)).map Box.bothFlags)
include flags

theorem markRuns_eq : markRuns axis space [] (keys.map measured.cleared) = keys.map (markedAs measured laid) := by
  have related := markRuns_related axis space [] (keys.map measured.cleared)
  generalize markRuns axis space [] (keys.map measured.cleared) = marked at flags related
  rw [List.forall₂_map_left_iff] at related
  induction related with
  | nil => rfl
  | cons one _ ih =>
      rw [List.map_cons,List.map_cons,List.map_cons] at flags
      obtain ⟨here,later⟩ := List.cons.inj flags
      have isBreak : (laid.box _).flags.isBreak = _ := congrArg (fun flags : ContainerFlags × LayoutFlags => flags.2.isBreak) here
      rw [List.map_cons,ih later]
      congr 1
      rw [markedAs,isBreak]
      rcases one with rfl | ⟨_,rfl⟩ <;> rfl

theorem inFlow_of_marked (member : key ∈ keys) (marked : (laid.box key).flags.isBreak = true) :
    (measured.box key).flags.inFlow = true := by
  have related := markRuns_related axis space [] (keys.map measured.cleared)
  rw [markRuns_eq flags,List.forall₂_map_left_iff,List.forall₂_map_right_iff,List.forall₂_same] at related
  rcases related key member with unchanged | ⟨flows,_⟩
  · have isBreak : (laid.box key).flags.isBreak = false := (congrArg (fun b : Box => b.flags.isBreak) unchanged :)
    rw [marked] at isBreak
    cases isBreak
  · exact flows

theorem inFlow_eq (member : key ∈ keys) : (laid.box key).flags.inFlow = (measured.box key).flags.inFlow := by
  have same := flags
  rw [markRuns_eq flags,List.map_map,List.map_map] at same
  exact congrArg (fun flags : ContainerFlags × LayoutFlags => flags.2.inFlow) (List.map_inj_left.mp same key member)

theorem flow_eq : laid.flow keys = measured.flow keys := List.filter_congr fun _ member => inFlow_eq flags member

theorem opensGreedily_of_flags : OpensGreedily (fun run key => (measured.box key).Overruns axis space (run.map measured.box))
    (fun key => (laid.box key).flags.isBreak) (laid.flow keys) := by
  have marks : ((markRuns axis space [] (keys.map measured.cleared)).filter (·.flags.inFlow)).map (·.flags.isBreak) = _ :=
    marks_markRuns unmarked_cleared []
  rw [markRuns_eq flags,flow_markedAs,flow_cleared,List.map_map] at marks
  rw [flow_eq flags]
  refine opensGreedily (marks.trans ?_)
  refine (openings_map measured.cleared [] _).symm.trans (openings_congr (fun run key => ?_) [] _)
  have unseen := overruns_unmarked axis space (run.map measured.box) (measured.box key)
  rwa [List.map_map] at unseen

theorem loopRuns_of_flags (some : keys ≠ []) :
    LoopRuns measured laid axis space keys (Run.build axis space true .empty (keys.map measured.cleared)) := by
  have loops := Run.loops_build axis space fun empty : keys.map measured.cleared = [] => some (List.map_eq_nil_iff.mp empty)
  refine ⟨loops,fun _ => rfl,loops.members_ne_nil,?_,fun flowing => ?_⟩
  · rw [Run.members_build (Run.counts_empty axis),markRuns_eq flags]
    rfl
  · have more : (keys.map measured.cleared).filter (·.flags.inFlow) ≠ [] := by
      rw [flow_cleared]
      exact fun empty => flowing ((flow_eq flags).trans (List.map_eq_nil_iff.mp empty))
    rw [Run.standing_build_empty more unmarked_cleared (Run.counts_empty axis) rfl,markRuns_eq flags,flow_markedAs,
      splitBefore_map,flow_eq flags]
    rfl

theorem cutGreedily_of_flags : CutGreedily measured laid axis space keys := by
  refine ⟨opensGreedily_of_flags flags,?_⟩
  by_cases none : keys = []
  · subst none
    exact ⟨[],.done,fun some => absurd rfl some,nofun,rfl,fun some => absurd rfl some⟩
  · exact ⟨_,loopRuns_of_flags flags none⟩

end Flags

-- Along its runs a wrapping container is marked anew, and what its runs had is kept till
-- the end of the update.
theorem flags_wrapped (linked : f.Linked) (attached : f.Attached key) (wraps : (f.box key).arrangement.wraps = true)
    (stacked : (f.box key).arrangement.primaryAxis? = some axis) :
    ((f.children key).map f.update.box).map Box.bothFlags = (markRuns axis ((f.update.box key).contentSpan axis).space []
      ((f.children key).map (f.lastSized axis).cleared)).map Box.bothFlags := by
  have same := sameLinks_passes (lastPass_mem f)
  have kept := passes_kept linked (lastPass_mem f) attached
  have there := same.linked linked
  have inside := same.within_iff.mpr attached
  have update := update_lastPass linked
  unfold lastSized
  rw [update,← same.children_eq]
  generalize f.lastPass.1 = g at *
  generalize f.lastPass.2 = keep at *
  have arrangement : ∀ axis, ((g.placedOn keep axis).box key).arrangement = (f.box key).arrangement := fun axis =>
    congrArg ContainerFlags.arrangement (kept.trans (placedOn_kept there keep axis inside)).inputs.container.symm
  have along := (arranged_placedOn there keep axis inside).flags_wrapped (by rwa [arrangement]) (by rwa [arrangement])
  have cleared : ((g.children key).map (g.sizedOn keep axis).box).map (·.withBreak false) =
      (g.children key).map (g.sizedOn keep axis).cleared := List.map_map
  rw [cleared] at along
  cases axis with
  | y => exact along
  | x =>
      have uncut : (g.box key).Uncut .y := by
        have same : (g.box key).arrangement = (f.box key).arrangement := congrArg ContainerFlags.arrangement kept.inputs.container.symm
        intro down
        rw [same,stacked] at down
        cases down
      have padding := (placedOn_kept there keep .x inside).symm.trans (placedOn_kept there keep .y inside)
      rw [flags_second there keep inside uncut,along,(sameOn_second there keep inside).contentSpan padding.inputs.padding]

theorem lastSized_kept (linked : f.Linked) (attached : f.Attached key) (axis : Axis) :
    Box.SameKept (f.box key) ((f.lastSized axis).box key) := by
  have same := sameLinks_passes (lastPass_mem f)
  exact (passes_kept linked (lastPass_mem f) attached).trans
    (sizedOn_kept (same.linked linked) _ axis (same.within_iff.mpr attached))

theorem unmarked_unwrapped (linked : f.Linked) (attached : f.Attached key) (unwrapped : ¬(f.box key).arrangement.wraps = true)
    (member : child ∈ f.children key) : (f.update.box child).flags.isBreak = false := by
  have same := sameLinks_passes (lastPass_mem f)
  have kept := passes_kept linked (lastPass_mem f) attached
  have there := same.linked linked
  have inside := same.within_iff.mpr attached
  rw [update_lastPass linked]
  rw [← same.children_eq] at member
  generalize f.lastPass.1 = g at *
  generalize f.lastPass.2 = keep at *
  have arrangement : ∀ {b}, Box.SameKept (g.box key) b → b.arrangement = (f.box key).arrangement := fun more =>
    congrArg ContainerFlags.arrangement (kept.trans more).inputs.container.symm
  have uncut : ∀ {b}, Box.SameKept (g.box key) b → ∀ axis, b.Uncut axis := fun more axis _ => by
    rw [arrangement more]
    exact Bool.eq_false_iff.mpr unwrapped
  have down := flags_second there keep inside (uncut (.refl _) .y)
  have across := (arranged_placedOn there keep .x inside).flags_uncut (uncut (placedOn_kept there keep .x inside) .x)
  have released := (fitted_sizedOn there keep .x inside).released rfl fun _ columns => by
    rw [arrangement (sizedOn_kept there keep .x inside)] at columns
    exact unwrapped (by rw [columns]; rfl)
  have whole := down.trans across
  rw [List.map_map,List.map_map] at whole
  have flags : ((g.placedOn keep .y).box child).bothFlags = ((g.sizedOn keep .x).box child).bothFlags :=
    List.map_inj_left.mp whole child member
  exact (Box.isBreak_of_flags flags).trans (released _ (List.mem_map_of_mem member))

-- Whatever marks and sizes earlier layouts left, an update cuts the children in flow of
-- every wrapping container greedily, by the sizes its last pass found and the space the
-- container has in the end; and nothing else is marked.
theorem update_runs (path : f.Reachable) :
    (∀ key axis, f.Attached key → (f.box key).arrangement.wraps = true → (f.box key).arrangement.primaryAxis? = some axis →
        CutGreedily (f.lastSized axis) f.update axis ((f.update.box key).contentSpan axis).space (f.children key)) ∧
      ∀ child, f.Attached child → (f.update.box child).flags.isBreak = true → (f.box child).flags.inFlow = true ∧
        ∃ parent, (f.links child).parent = some parent ∧ (f.box parent).arrangement.wraps = true := by
  have linked := path.linked
  refine ⟨fun key axis attached wraps stacked => cutGreedily_of_flags (flags_wrapped linked attached wraps stacked),?_⟩
  intro child attached marked
  cases id attached with
  | self =>
      rw [isBreak_root_update linked] at marked
      cases marked
  | @child child parent under above =>
      have member := linked.mem_children.mpr under
      by_cases wraps : (f.box parent).arrangement.wraps = true
      · refine ⟨?_,parent,under,wraps⟩
        obtain ⟨axis,stacked⟩ : ∃ axis, (f.box parent).arrangement.primaryAxis? = some axis := by
          revert wraps
          cases (f.box parent).arrangement <;> simp [Arrangement.wraps,Arrangement.primaryAxis?]
        have flows := inFlow_of_marked (flags_wrapped linked above wraps stacked) member marked
        rwa [← ((lastSized_kept linked attached axis).inputs.matching .x).inFlow] at flows
      · rw [unmarked_unwrapped linked above wraps member] at marked
        cases marked

def threeRuns : Forest := after
  [.setContainerFlags .root (.ofWord 5),.setSize .root ⟨100,100⟩,.createChild .root,.setSize ⟨1⟩ ⟨60,10⟩,
    .createChild .root,.setSize ⟨2⟩ ⟨50,20⟩,.setLayoutFlags ⟨2⟩ (.ofWord 0x800),.createChild .root,.setSize ⟨3⟩ ⟨30,10⟩,
    .createChild .root,.setSize ⟨4⟩ ⟨20,10⟩,.createChild .root,.setSize ⟨5⟩ ⟨10,10⟩,.setLayoutFlags ⟨5⟩ (.ofWord 0x100)]

theorem update_runs_threeRuns : threeRuns.Reachable ∧
    (threeRuns.children .root).map (fun key => (threeRuns.update.box key).flags.isBreak) = [false,false,false,true,true] ∧
      CutGreedily (threeRuns.lastSized .x) threeRuns.update .x ((threeRuns.update.box .root).contentSpan .x).space
        (threeRuns.children .root) := by
  have path : threeRuns.Reachable := reachable_after _
  exact ⟨path,by decide +kernel,(update_runs path).1 .root .x .self (by decide +kernel) (by decide +kernel)⟩

end BoxLayout.Forest
