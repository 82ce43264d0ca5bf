import BoxLayout.Proofs.Forest.Steps
import BoxLayout.Proofs.Layout.CrossRuns

namespace BoxLayout

-- The size pass and the placement of one pass agree on the runs across a wrapping container.

structure CrossRuns (axis : Axis) (b : Box) (children : List Box) (b' : Box) (placed : List Box) : Prop where
  sized : b.contentNeed axis children = max (total (Box.runWidths axis children)) (Box.floatingReach axis children)
  sideBySide : b'.placeChildren axis children = (List.zipWith
    (fun span run => Box.squeezeChildren axis span b'.container.constrainSize run)
    (Box.sideBySide (b'.contentSpan axis).offset (Box.runNeeds axis children)) (splitBefore Box.opensRun children)).flatten
  arranged : Box.Arranged axis b children b' placed
  same : ∃ lead, (lead = [] ∨ lead = [0]) ∧ Box.runNeeds axis children = lead ++ Box.runWidths axis children
  content : b.contentSize.get axis =
    max (total (Box.runNeeds axis children)) (Box.floatingReach axis children) + b.padding.total axis

theorem crossRuns {axis : Axis} {keep : Bool} {b b' : Box} {children placed : List Box} (fitted : Box.Fitted axis keep b children)
    (arranged : Box.Arranged axis b children b' placed) (wraps : b.arrangement.wraps = true)
    (across : b.arrangement.primaryAxis? ≠ some axis) (flexible : ¬0 < b.fixedSize.get axis) :
    CrossRuns axis b children b' placed := by
  have sized : b.contentNeed axis children = max (total (Box.runWidths axis children)) (Box.floatingReach axis children) := by
    rw [Box.contentNeed,if_neg across,if_pos wraps,Box.wrappedOverlaidNeed_eq]
  have arrangement : b'.arrangement = b.arrangement := congrArg ContainerFlags.arrangement arranged.container
  refine ⟨sized,?_,arranged,Box.runNeeds_eq axis children,?_⟩
  · rw [Box.placeChildren,arrangement]
    simp only [if_neg across,wraps,if_true]
    exact Box.squeezeRuns_eq axis b'.container.constrainSize (b'.contentSpan axis).offset (splitBefore Box.opensRun children)
  · rw [fitted.content flexible,sized,Box.total_runNeeds]

namespace Forest
variable {f : Forest} {key : Key} {axis : Axis}

-- In every pass of an update, across an attached wrapping container that has no fixed size
-- there.
theorem cross_runs_agree (path : f.Reachable) {pass : Forest × Bool} (member : pass ∈ f.passes) (attached : f.Attached key)
    (wraps : (f.box key).arrangement.wraps = true) (across : (f.box key).arrangement.primaryAxis? ≠ some axis)
    (flexible : ¬0 < (f.box key).fixedSize.get axis) :
    CrossRuns axis ((pass.1.sizedOn pass.2 axis).box key) ((f.children key).map (pass.1.sizedOn pass.2 axis).box)
      ((pass.1.placedOn pass.2 axis).box key) ((f.children key).map (pass.1.placedOn pass.2 axis).box) := by
  have linked := path.linked
  have same := sameLinks_passes member
  have there := same.linked linked
  have inside := same.within_iff.mpr attached
  have kept := (passes_kept linked member attached).trans (sizedOn_kept there pass.2 axis inside)
  have arrangement : ((pass.1.sizedOn pass.2 axis).box key).arrangement = (f.box key).arrangement :=
    congrArg ContainerFlags.arrangement kept.inputs.container.symm
  rw [← same.children_eq]
  refine crossRuns (fitted_sizedOn there pass.2 axis inside) (arranged_placedOn there pass.2 axis inside) ?_ ?_ ?_
  · rwa [arrangement]
  · rwa [arrangement]
  · rwa [← kept.inputs.fixedSize]

def besideFloating : Forest := after
  [.setContainerFlags .root (.ofWord 6),.setSize .root ⟨unset,100⟩,.createChild .root,.setSize ⟨1⟩ ⟨10,10⟩,
    .setLayoutFlags ⟨1⟩ (.ofWord 0x400),.createChild .root,.setSize ⟨2⟩ ⟨20,60⟩,.setLayoutFlags ⟨2⟩ (.ofWord 0x100),
    .createChild .root,.setSize ⟨3⟩ ⟨30,60⟩]

theorem cross_runs_agree_besideFloating : ∃ pass ∈ besideFloating.passes, pass.2 = true ∧
    CrossRuns .x ((pass.1.sizedOn pass.2 .x).box .root) ((besideFloating.children .root).map (pass.1.sizedOn pass.2 .x).box)
      ((pass.1.placedOn pass.2 .x).box .root) ((besideFloating.children .root).map (pass.1.placedOn pass.2 .x).box) ∧
    Box.runNeeds .x ((besideFloating.children .root).map (pass.1.sizedOn pass.2 .x).box) = [0,20,30] := by
  have path : besideFloating.Reachable := reachable_after _
  have second : (besideFloating.fourSteps false,true) ∈ besideFloating.passes := by
    have broke : besideFloating.secondPass = some (besideFloating.fourSteps false,true) := if_pos (by decide +kernel)
    rw [passes,broke]
    exact List.mem_cons_of_mem _ List.mem_cons_self
  exact ⟨_,second,rfl,cross_runs_agree path second .self (by decide +kernel) (by decide +kernel) (by decide +kernel),
    by decide +kernel⟩

end Forest
end BoxLayout
