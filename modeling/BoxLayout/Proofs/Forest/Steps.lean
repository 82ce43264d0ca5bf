import BoxLayout.Proofs.Forest.KeptRuns
import BoxLayout.Proofs.Forest.Lasting
import BoxLayout.Proofs.Layout.Families

namespace BoxLayout.Forest

-- An update one step after another: each pass sizes an axis, places it, and goes on to the
-- next axis, and every step writes its boxes back before the next one reads them.

variable {f g : Forest} {key child : Key} {axis : Axis} {keep : Bool}

def sizeStep (f : Forest) (axis : Axis) (keep : Bool) : Forest :=
  f.writeBack (f.outline .root).preorder ((f.boxesAt (f.outline .root)).sized axis keep false).preorder

def placeStep (f : Forest) (axis : Axis) : Forest :=
  f.writeBack (f.outline .root).preorder ((f.boxesAt (f.outline .root)).arrange axis none (f.box .root)).preorder

def sizedOn (f : Forest) (keep : Bool) : Axis → Forest
  | .x => f.sizeStep .x keep
  | .y => ((f.sizeStep .x keep).placeStep .x).sizeStep .y keep

def placedOn (f : Forest) (keep : Bool) (axis : Axis) : Forest := (f.sizedOn keep axis).placeStep axis

def secondPass (f : Forest) : Option (Forest × Bool) :=
  if ((f.fourSteps false).boxesAt (f.outline .root)).columnBroke then some (f.fourSteps false,true) else none

def passes (f : Forest) : List (Forest × Bool) := (f,false) :: f.secondPass.toList

def lastPass (f : Forest) : Forest × Bool := f.secondPass.getD (f,false)

theorem sameLinks_sizeStep (f : Forest) (axis : Axis) (keep : Bool) : SameLinks f (f.sizeStep axis keep) := sameLinks_writeBack _ _ _

theorem sameLinks_placeStep (f : Forest) (axis : Axis) : SameLinks f (f.placeStep axis) := sameLinks_writeBack _ _ _

theorem sameLinks_sizedOn (f : Forest) (keep : Bool) (axis : Axis) : SameLinks f (f.sizedOn keep axis) := by
  cases axis with
  | x => exact sameLinks_sizeStep _ _ _
  | y => exact (sameLinks_sizeStep _ _ _).trans ((sameLinks_placeStep _ _).trans (sameLinks_sizeStep _ _ _))

theorem sameLinks_placedOn (f : Forest) (keep : Bool) (axis : Axis) : SameLinks f (f.placedOn keep axis) :=
  (sameLinks_sizedOn f keep axis).trans (sameLinks_placeStep _ axis)

theorem boxesAt_sizeStep (linked : f.Linked) (axis : Axis) (keep : Bool) :
    (f.sizeStep axis keep).boxesAt (f.outline .root) = (f.boxesAt (f.outline .root)).sized axis keep false :=
  boxesAt_writeBack linked (contains_root linked) (acyclic_root linked)
    ((Tree.sized_kept _ axis keep false).imp fun _ _ _ => trivial)

theorem boxesAt_placeStep (linked : f.Linked) (axis : Axis) : (f.placeStep axis).boxesAt (f.outline .root) =
    (f.boxesAt (f.outline .root)).arrange axis none (f.box .root) := by
  refine boxesAt_writeBack linked (contains_root linked) (acyclic_root linked) ?_
  have kept := (Box.SameKept.writing axis).arrange none (.refl _) (.refl Box.SameKept.refl (f.boxesAt (f.outline .root)))
  rw [value_boxesAt] at kept
  exact kept.imp fun _ _ _ => trivial

theorem related_attached {R : Box → Box → Prop} (linked : f.Linked)
    (related : Tree.Related R (f.boxesAt (f.outline .root)) (g.boxesAt (f.outline .root))) (attached : f.Attached key) :
    R (f.box key) (g.box key) := Tree.Related.maps.mp related key (linked.mem_outline_root.mpr attached)

theorem paired_outline {P : Box → List Box → Box → List Box → Prop} {t : Tree Key} (outlines : f.Outlines t)
    (paired : Tree.Paired P (t.map f.box) (t.map g.box)) : ∀ key ∈ t.preorder,
      P (f.box key) ((f.children key).map f.box) (g.box key) ((f.children key).map g.box) := by
  induction outlines with
  | @node top trees listed below ih =>
      rw [Tree.map_node,Tree.map_node] at paired
      cases paired with
      | node here deeper =>
          rw [List.forall₂_map_left_iff,List.forall₂_map_right_iff,List.forall₂_same] at deeper
          intro key member
          rw [Tree.preorder_node] at member
          rcases List.mem_cons.mp member with rfl | inside
          · have values : ∀ h : Forest, (trees.map (Tree.map h.box)).map Tree.value = (f.children key).map h.box := by
              intro h
              rw [← listed,List.map_map,List.map_map]
              exact List.map_congr_left fun tree _ => Tree.value_map h.box tree
            rw [values,values] at here
            exact here
          · obtain ⟨tree,found,inside⟩ := List.mem_flatMap.mp inside
            exact ih tree found (deeper tree found) key inside

theorem fitted_sizeStep (linked : f.Linked) (axis : Axis) (keep : Bool) (attached : f.Attached key) :
    Box.Fitted axis keep ((f.sizeStep axis keep).box key) ((f.children key).map (f.sizeStep axis keep).box) := by
  have same := sameLinks_sizeStep f axis keep
  have there := same.linked linked
  have each := Tree.each_sized (f.boxesAt (f.outline .root)) axis keep false
  rw [← boxesAt_sizeStep linked,← same.outline_eq] at each
  rw [← same.children_eq]
  exact each_outline (outlines_root there) each key (there.mem_outline_root.mpr (same.within_iff.mpr attached))

theorem arranged_placeStep (linked : f.Linked) (axis : Axis) (attached : f.Attached key) :
    Box.Arranged axis (f.box key) ((f.children key).map f.box) ((f.placeStep axis).box key)
      ((f.children key).map (f.placeStep axis).box) := by
  have paired : Tree.Paired (Box.Arranged axis) (f.boxesAt (f.outline .root)) ((f.placeStep axis).boxesAt (f.outline .root)) := by
    rw [boxesAt_placeStep linked]
    exact Tree.paired_arrange (congrArg Box.container (value_boxesAt f .root).symm)
  exact paired_outline (outlines_root linked) paired key (linked.mem_outline_root.mpr attached)

section Written
variable {W : Box → Box → Prop} (writing : Writing axis W) (self : ∀ b, W b b) (linked : f.Linked) (attached : f.Attached key)
include writing self linked attached

-- Neither step writes but on its axis, save for the marks.
theorem written_sizeStep (keep : Bool) : W (f.box key) ((f.sizeStep axis keep).box key) := by
  refine related_attached linked ?_ attached
  rw [boxesAt_sizeStep linked]
  exact writing.sized keep false (.refl self _)

theorem written_placeStep : W (f.box key) ((f.placeStep axis).box key) := by
  refine related_attached linked ?_ attached
  rw [boxesAt_placeStep linked]
  exact writing.arrange none (value_boxesAt f .root ▸ self _) (.refl self _)

end Written

theorem flags_sizeStep_second (linked : f.Linked) (keep : Bool) (attached : f.Attached key) :
    ((f.sizeStep .y keep).box key).bothFlags = (f.box key).bothFlags := by
  have same : Tree.Related (fun a b => Box.bothFlags a = Box.bothFlags b) ((f.sizeStep .y keep).boxesAt (f.outline .root))
      (f.boxesAt (f.outline .root)) := by
    rw [boxesAt_sizeStep linked]
    exact .of_map_eq (Tree.flags_sized_second _ keep false)
  exact related_attached linked (same.symm fun _ _ equal => equal.symm) attached |>.symm

theorem box_writeBack_unattached (linked : f.Linked) (outside : ¬f.Attached key) (boxes : List Box) :
    (f.writeBack (f.outline .root).preorder boxes).box key = f.box key :=
  box_writeBack_other boxes (fun member => outside (linked.mem_outline_root.mp member))
    (linked.contains_outline (contains_root linked) (acyclic_root linked))

theorem fourSteps_eq (linked : f.Linked) (keep : Bool) : f.fourSteps keep = f.placedOn keep .y := by
  have step : ∀ {g : Forest}, SameLinks f g → ∀ axis, ((g.sizeStep axis keep).placeStep axis).boxesAt (f.outline .root) =
      (g.boxesAt (f.outline .root)).passAxis keep none axis := by
    intro g same axis
    have sized := same.trans (sameLinks_sizeStep g axis keep)
    have tree := boxesAt_sizeStep (same.linked linked) axis keep
    have placed := boxesAt_placeStep (sized.linked linked) axis
    rw [same.outline_eq] at tree
    rw [sized.outline_eq,← value_boxesAt,sized.outline_eq,tree] at placed
    exact placed
  have unwritten : ∀ {g : Forest}, SameLinks f g → ∀ key, ¬f.Attached key → ∀ axis,
      ((g.sizeStep axis keep).placeStep axis).box key = g.box key := by
    intro g same key outside axis
    have sized := same.trans (sameLinks_sizeStep g axis keep)
    exact (box_writeBack_unattached (sized.linked linked) (fun inside => outside (sized.within_iff.mp inside)) _).trans
      (box_writeBack_unattached (same.linked linked) (fun inside => outside (same.within_iff.mp inside)) _)
  have across := (sameLinks_sizeStep f .x keep).trans (sameLinks_placeStep (f.sizeStep .x keep) .x)
  refine (eq_fourSteps linked (.refl f) (sameLinks_placedOn f keep .y) ?_ ?_ ?_).symm
  · intro key
    simp only [placedOn,sizedOn,sizeStep,placeStep,tag_writeBack]
  · exact (step across .y).trans (congrArg (Tree.passAxis keep none .y) (step (.refl f) .x))
  · intro key outside
    exact (unwritten across key outside .y).trans (unwritten (.refl f) key outside .x)

theorem update_lastPass (linked : f.Linked) : f.update = f.lastPass.1.placedOn f.lastPass.2 .y := by
  have there := (sameLinks_fourSteps f false).linked linked
  rw [update_eq linked]
  unfold lastPass secondPass
  split
  · exact fourSteps_eq there true
  · exact fourSteps_eq linked false

theorem lastPass_mem (f : Forest) : f.lastPass ∈ f.passes := by
  unfold lastPass passes
  cases f.secondPass with
  | none => exact List.mem_cons_self
  | some second => exact List.mem_cons_of_mem _ List.mem_cons_self

theorem sameLinks_passes {pass : Forest × Bool} (member : pass ∈ f.passes) : SameLinks f pass.1 := by
  rcases List.mem_cons.mp member with rfl | second
  · exact .refl f
  · unfold secondPass at second
    split at second
    · rw [Option.toList_some,List.mem_singleton] at second
      rw [second]
      exact sameLinks_fourSteps f false
    · cases second

theorem passes_kept (linked : f.Linked) {pass : Forest × Bool} (member : pass ∈ f.passes) (attached : f.Attached key) :
    Box.SameKept (f.box key) (pass.1.box key) := by
  rcases List.mem_cons.mp member with rfl | second
  · exact .refl _
  · unfold secondPass at second
    split at second
    · rw [Option.toList_some,List.mem_singleton] at second
      rw [second]
      exact fourSteps_kept linked false attached
    · cases second

section Halves
variable (linked : f.Linked) (keep : Bool) (axis : Axis) (attached : f.Attached key)
include linked attached

theorem sizedOn_kept : Box.SameKept (f.box key) ((f.sizedOn keep axis).box key) := by
  have sized := written_sizeStep (Box.SameKept.writing .x) Box.SameKept.refl linked attached keep
  cases axis with
  | x => exact sized
  | y =>
      have one := sameLinks_sizeStep f .x keep
      have two := one.trans (sameLinks_placeStep (f.sizeStep .x keep) .x)
      have placed := written_placeStep (Box.SameKept.writing .x) Box.SameKept.refl (one.linked linked) (one.within_iff.mpr attached)
      have again := written_sizeStep (Box.SameKept.writing .y) Box.SameKept.refl (two.linked linked) (two.within_iff.mpr attached) keep
      exact (sized.trans placed).trans again

theorem placedOn_kept : Box.SameKept (f.box key) ((f.placedOn keep axis).box key) := by
  have same := sameLinks_sizedOn f keep axis
  exact (sizedOn_kept linked keep axis attached).trans
    (written_placeStep (Box.SameKept.writing axis) Box.SameKept.refl (same.linked linked) (same.within_iff.mpr attached))

theorem fitted_sizedOn : Box.Fitted axis keep ((f.sizedOn keep axis).box key) ((f.children key).map (f.sizedOn keep axis).box) := by
  cases axis with
  | x => exact fitted_sizeStep linked .x keep attached
  | y =>
      have same := sameLinks_placedOn f keep .x
      rw [← same.children_eq]
      exact fitted_sizeStep (same.linked linked) .y keep (same.within_iff.mpr attached)

theorem arranged_placedOn : Box.Arranged axis ((f.sizedOn keep axis).box key) ((f.children key).map (f.sizedOn keep axis).box)
    ((f.placedOn keep axis).box key) ((f.children key).map (f.placedOn keep axis).box) := by
  have same := sameLinks_sizedOn f keep axis
  rw [← same.children_eq]
  exact arranged_placeStep (same.linked linked) axis (same.within_iff.mpr attached)

end Halves

-- The second axis leaves the marks below a container whose runs do not go down it,
theorem flags_second (linked : f.Linked) (keep : Bool) (attached : f.Attached key) (uncut : (f.box key).Uncut .y) :
    ((f.children key).map (f.placedOn keep .y).box).map Box.bothFlags =
      ((f.children key).map (f.placedOn keep .x).box).map Box.bothFlags := by
  have same := sameLinks_placedOn f keep .x
  have still : ((f.placedOn keep .y).box key).Uncut .y := by
    unfold Box.Uncut Box.arrangement at uncut ⊢
    rwa [← (placedOn_kept linked keep .y attached).inputs.container]
  rw [(arranged_placedOn linked keep .y attached).flags_uncut still,List.map_map,List.map_map]
  refine List.map_congr_left fun child member => flags_sizeStep_second (same.linked linked) keep ?_
  exact same.within_iff.mpr (.child (linked.mem_children.mp member) attached)

-- and all that stands on the first.
theorem sameOn_second (linked : f.Linked) (keep : Bool) (attached : f.Attached key) :
    Box.SameOn .x ((f.placedOn keep .x).box key) ((f.placedOn keep .y).box key) := by
  have apart : Axis.x ≠ .y := by decide
  have one := sameLinks_placedOn f keep .x
  have two := sameLinks_sizedOn f keep .y
  have sized := written_sizeStep (Box.SameOn.writing apart) Box.SameOn.refl (one.linked linked) (one.within_iff.mpr attached) keep
  have placed := written_placeStep (Box.SameOn.writing apart) Box.SameOn.refl (two.linked linked) (two.within_iff.mpr attached)
  exact sized.trans placed

end BoxLayout.Forest
