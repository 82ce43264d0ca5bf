import BoxLayout.Proofs.Forest.Columnless
import BoxLayout.Proofs.Forest.Partial
import BoxLayout.Proofs.Layout.Steady

namespace BoxLayout.Forest

-- Partial updates after a whole one, without wrapping columns. The whole one settled
-- every subtree, so a partial one finds nothing to do unless it moves its own root.

variable {f g : Forest} {top key parent child : Key}

theorem boxesAt_child (linked : f.Linked) (present : f.Contains parent) (acyclic : f.Acyclic parent)
    (under : (f.links child).parent = some parent) :
    ∃ trees, f.boxesAt (f.outline parent) = .node (f.box parent) trees ∧ f.boxesAt (f.outline child) ∈ trees := by
  have outlines := outlines_outline linked present acyclic
  have top := value_outline f parent
  cases found : f.outline parent with
  | node key trees =>
      rw [found] at outlines top
      cases outlines with
      | node listed below =>
          cases top
          have inside : child ∈ trees.map Tree.value := listed ▸ linked.mem_children.mpr under
          obtain ⟨tree,member,value⟩ := List.mem_map.mp inside
          have own := (outlines_outline linked (contains_of_parent under) (acyclic.of_parent under)).unique (below tree member)
            ((value_outline f child).trans value.symm)
          refine ⟨trees.map (Tree.map f.box),Tree.map_node _ _ _,?_⟩
          rw [own]
          exact List.mem_map_of_mem member

theorem boxesAt_marked (linked : f.Linked) (present : f.Contains top) (acyclic : f.Acyclic top) (same : SameLinks f g)
    (mark : Bool) : (g.editBox top (·.withBreak mark)).boxesAt (f.outline top) = (g.boxesAt (f.outline top)).marked mark := by
  have distinct := (outlines_outline linked present acyclic).nodup_preorder linked (by rwa [value_outline])
  have value := value_outline f top
  have box := fun key => box_editBox g top key (·.withBreak mark) ((same.contains_iff top).mpr present)
  cases found : f.outline top with
  | node key trees =>
      rw [found] at distinct value
      change key = top at value
      subst key
      rw [Tree.preorder_node,List.nodup_cons] at distinct
      rw [boxesAt,boxesAt,Tree.map_node,Tree.map_node,Tree.marked,box,if_pos rfl]
      refine congrArg _ (List.map_congr_left fun tree member => Tree.map_eq_map_iff.mpr fun other inside => ?_)
      rw [box,if_neg]
      rintro rfl
      exact distinct.1 (List.mem_flatMap.mpr ⟨tree,member,inside⟩)

theorem rect_relaid (linked : f.Linked) (present : f.Contains top) (acyclic : f.Acyclic top) :
    ((f.relaid top).box top).rect = ((f.boxesAt (f.outline top)).layOut (f.surround top)).value.rect := by
  rw [box_relaid present,if_pos rfl,← boxesAt_layOutAt linked present acyclic,boxesAt,Tree.value_map,value_outline]
  rfl

theorem relaid_steady (linked : f.Linked) (present : f.Contains top) (acyclic : f.Acyclic top)
    (columnless : ∀ b ∈ (f.boxesAt (f.outline top)).preorder, b.arrangement ≠ .columnWrap)
    (steady : ∀ axis, Tree.Steady axis (f.boxesAt (f.outline top)))
    (rect : ((f.relaid top).box top).rect = (f.box top).rect) : f.relaid top = f := by
  have same := sameLinks_relaid f top
  have laidOut := boxesAt_layOutAt linked present acyclic (f.surround top)
  rw [rect_relaid linked present acyclic,Tree.layOut_columnless columnless,← value_boxesAt f top] at rect
  rw [Tree.layOut_columnless columnless,Tree.pass_steady steady rect] at laidOut
  have boxes : (f.relaid top).boxesAt (f.outline top) = f.boxesAt (f.outline top) := by
    have marked := boxesAt_marked linked present acyclic (sameLinks_layOutAt f (f.surround top) top) (f.box top).flags.isBreak
    rw [laidOut,Tree.marked_marked,← value_boxesAt f top,Tree.marked_self] at marked
    rw [value_boxesAt] at marked
    exact marked
  refine eq_of_boxes same (fun key => tag_relaid ..) fun key => ?_
  by_cases inside : f.Within top key
  · exact Tree.map_eq_map_iff.mp boxes key ((linked.mem_outline present acyclic).mpr inside)
  · exact box_relaid_outside linked present acyclic inside

theorem columnless_update (columnless : ∀ key, f.Attached key → (f.box key).arrangement ≠ .columnWrap) :
    ∀ key, f.update.Attached key → (f.update.box key).arrangement ≠ .columnWrap := by
  intro key attached
  have kept := box_layOutAt_kept f none .root key
  have arrangement : (f.box key).arrangement = (f.update.box key).arrangement :=
    congrArg ContainerFlags.arrangement kept.inputs.container
  rw [← arrangement]
  exact columnless key ((sameLinks_update f).within_iff.mp attached)

section Updated
variable (linked : f.Linked) (columnless : ∀ key, f.Attached key → (f.box key).arrangement ≠ .columnWrap)
include linked columnless

theorem steady_update (attached : f.Attached key) (axis : Axis) : Tree.Steady axis (f.update.boxesAt (f.outline key)) := by
  have same := sameLinks_update f
  have there := same.linked linked
  induction attached with
  | self =>
      rw [boxesAt_update linked]
      exact Tree.steady_layOut (columnless_boxesAt linked columnless .self) axis
  | @child key parent under inside ih =>
      have inside' := same.within_iff.mpr inside
      obtain ⟨trees,whole,member⟩ := boxesAt_child there (there.contains_attached inside') (there.acyclic_attached inside')
        ((same.links_eq key).symm ▸ under)
      rw [same.outline_eq] at whole member
      exact ((whole ▸ ih).child member).1

theorem floating_update (attached : f.Attached parent) (under : (f.links child).parent = some parent)
    (floats : (f.box child).flags.floating = true) (axis : Axis) :
    ((f.update.boxesAt (f.outline child)).passAxis false (f.update.surround child) axis).value.withBreak false =
      (f.update.boxesAt (f.outline child)).value.withBreak false := by
  have same := sameLinks_update f
  have there := same.linked linked
  have attached' := same.within_iff.mpr attached
  have under' := (same.links_eq child).symm ▸ under
  obtain ⟨trees,whole,member⟩ := boxesAt_child there (there.contains_attached attached') (there.acyclic_attached attached') under'
  rw [same.outline_eq] at whole member
  have around : f.update.surround child = some (f.update.box parent).surround := by
    rw [surround,under']
    rfl
  rw [around]
  refine ((whole ▸ steady_update linked columnless attached axis).child member).2 ?_
  rw [boxesAt,Tree.value_map,value_outline,update,← (box_layOutAt_kept f none .root child).inputs.floating]
  exact floats

end Updated

theorem updateSubtree_steady (path : f.Reachable) (columnless : ∀ key, f.Attached key → (f.box key).arrangement ≠ .columnWrap)
    (attached : f.Attached top) : ∃ g, f.update.updateSubtree top = .ok g ∧
      ((g.box top).rect = (f.update.box top).rect → g = f.update) ∧
        ((f.box top).flags.floating = true → (g.box top).rect = (f.update.box top).rect) := by
  have linked := path.linked
  have same := sameLinks_update f
  have there := same.linked linked
  have attached' := same.within_iff.mpr attached
  have present := there.contains_attached attached'
  have acyclic := there.acyclic_attached attached'
  have plain := columnless_boxesAt there (columnless_update columnless) attached'
  have steady := steady_update linked columnless attached
  rw [← same.outline_eq] at steady
  refine ⟨f.update.relaid top,updateSubtree_relaid present,relaid_steady there present acyclic plain steady,fun floats => ?_⟩
  cases attached with
  | self =>
      have updated : f.update.Reachable := path.step (show Command.update.apply f = .ok _ from rfl)
      rw [updated.relaid_root,update_update linked]
  | child under inside =>
      rw [rect_relaid there present acyclic,Tree.layOut_columnless plain,← value_boxesAt f.update top]
      refine Tree.rect_pass_floating steady fun axis => ?_
      rw [same.outline_eq]
      exact floating_update linked columnless inside under floats axis

def overhanging : Forest := after
  [.setContainerFlags .root (.ofWord 5),.setSize .root ⟨100,50⟩,.createChild .root,.setSize ⟨1⟩ ⟨60,20⟩,
    .createChild .root,.setSize ⟨2⟩ ⟨70,20⟩,.setContainerFlags ⟨2⟩ (.ofWord 33),.createChild ⟨2⟩,
    .setLayoutFlags ⟨3⟩ (.ofWord 1027),.setFloatingPosition ⟨3⟩ ⟨10,5⟩,.createChild ⟨3⟩,.setSize ⟨4⟩ ⟨20,30⟩]

theorem updateSubtree_steady_overhanging : overhanging.Reachable ∧
    (∀ key, overhanging.Attached key → (overhanging.box key).arrangement ≠ .columnWrap) ∧ overhanging.Attached ⟨3⟩ ∧
      (overhanging.box ⟨3⟩).flags.floating = true ∧ (overhanging.update.box ⟨3⟩).extent .y = 15 ∧
        overhanging.update.updateSubtree ⟨3⟩ = .ok overhanging.update := by
  have path : overhanging.Reachable := reachable_after _
  have columnless : ∀ key ∈ overhanging.keys, (overhanging.box key).arrangement ≠ .columnWrap := by decide +kernel
  have plain : ∀ key, overhanging.Attached key → (overhanging.box key).arrangement ≠ .columnWrap := fun key attached =>
    columnless key (mem_keys.mpr (path.linked.contains_attached attached))
  have two : (overhanging.links ⟨2⟩).parent = some .root := by decide +kernel
  have three : (overhanging.links ⟨3⟩).parent = some ⟨2⟩ := by decide +kernel
  have attached : overhanging.Attached ⟨3⟩ := .child three (.child two .self)
  have floats : (overhanging.box ⟨3⟩).flags.floating = true := by decide +kernel
  obtain ⟨g,done,still,stays⟩ := updateSubtree_steady path plain attached
  refine ⟨path,plain,attached,floats,by decide +kernel,?_⟩
  rw [done,still (stays floats)]

end BoxLayout.Forest
