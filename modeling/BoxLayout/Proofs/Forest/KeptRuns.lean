import BoxLayout.Proofs.Forest.Repeated
import BoxLayout.Proofs.Layout.KeptRuns

namespace BoxLayout.Forest

-- An update is one or two times the same four steps. Once more changes nothing
-- unless the second time moved the runs that the first had found.

variable {f g h : Forest} {key : Key} {t : Tree Key}

def fourSteps (f : Forest) (keepColumns : Bool) : Forest :=
  let outline := f.outline .root
  f.writeBack outline.preorder ((f.boxesAt outline).pass keepColumns none).preorder

def SameRuns (f g : Forest) : Prop :=
  ∀ parent, f.Attached parent → (f.box parent).arrangement = .columnWrap →
    ∀ child ∈ f.children parent, (f.box child).flags.isBreak = (g.box child).flags.isBreak

theorem sameLinks_fourSteps (f : Forest) (keep : Bool) : SameLinks f (f.fourSteps keep) := sameLinks_writeBack _ _ _

theorem tag_fourSteps (f : Forest) (keep : Bool) : (f.fourSteps keep).tag key = f.tag key := tag_writeBack ..

theorem boxesAt_fourSteps (linked : f.Linked) (same : SameLinks f g) (keep : Bool) :
    (g.fourSteps keep).boxesAt (f.outline .root) = (g.boxesAt (f.outline .root)).pass keep none := by
  have there := same.linked linked
  rw [← same.outline_eq]
  exact boxesAt_writeBack there (contains_root there) (acyclic_root there)
    ((Tree.pass_keeps _ keep none).imp fun _ _ _ => trivial)

theorem fourSteps_kept (linked : f.Linked) (keep : Bool) (attached : f.Attached key) :
    Box.SameKept (f.box key) ((f.fourSteps keep).box key) := by
  have kept := Tree.pass_keeps (f.boxesAt (f.outline .root)) keep none
  rw [← boxesAt_fourSteps linked (.refl f)] at kept
  exact Tree.Related.maps.mp kept key (linked.mem_outline_root.mpr attached)

theorem box_fourSteps_outside (linked : f.Linked) (same : SameLinks f g) (keep : Bool) (outside : ¬f.Attached key) :
    (g.fourSteps keep).box key = g.box key := by
  have there := same.linked linked
  refine box_writeBack_other _ ?_ (there.contains_outline (contains_root there) (acyclic_root there))
  exact fun member => outside (same.within_iff.mp (there.mem_outline_root.mp member))

theorem eq_fourSteps {keep : Bool} (linked : f.Linked) (same : SameLinks f g) (there : SameLinks f h)
    (tags : ∀ key, h.tag key = g.tag key)
    (below : h.boxesAt (f.outline .root) = (g.boxesAt (f.outline .root)).pass keep none)
    (outside : ∀ key, ¬f.Attached key → h.box key = g.box key) : h = g.fourSteps keep := by
  refine eq_of_boxes ((same.trans (sameLinks_fourSteps g keep)).symm.trans there) ?_ ?_
  · intro key
    rw [tags,tag_fourSteps]
  · intro key
    by_cases inside : f.Attached key
    · have rows := below.trans (boxesAt_fourSteps linked same keep).symm
      exact Tree.map_eq_map_iff.mp rows key (linked.mem_outline_root.mpr inside)
    · rw [outside key inside,box_fourSteps_outside linked same keep inside]

theorem update_eq (linked : f.Linked) : f.update =
    if ((f.fourSteps false).boxesAt (f.outline .root)).columnBroke then (f.fourSteps false).fourSteps true
    else f.fourSteps false := by
  have update := boxesAt_update linked
  have first := boxesAt_fourSteps linked (.refl f) false
  rw [first]
  split
  · rename_i broke
    refine eq_fourSteps linked (sameLinks_fourSteps f false) (sameLinks_update f) ?_ ?_ ?_
    · intro key
      exact (tag_layOutAt ..).trans (tag_fourSteps ..).symm
    · rw [update,first]
      exact if_pos broke
    · intro key outside
      rw [box_update_outside linked outside,box_fourSteps_outside linked (.refl f) false outside]
  · rename_i whole
    refine eq_fourSteps linked (.refl f) (sameLinks_update f) (fun key => tag_layOutAt ..) ?_ ?_
    · rw [update]
      exact if_neg whole
    · exact fun key => box_update_outside linked

theorem runsAlike_boxesAt (linked : f.Linked) (outlines : f.Outlines t) (attached : f.Attached t.value)
    (inputs : ∀ key, f.Attached key → Box.SameInputs (g.box key) (h.box key))
    (marks : ∀ parent, f.Attached parent → (g.box parent).arrangement = .columnWrap →
      ∀ child ∈ f.children parent, (g.box child).flags.isBreak = (h.box child).flags.isBreak) :
    Tree.RunsAlike (g.boxesAt t) (h.boxesAt t) := by
  induction outlines with
  | @node top trees listed _ ih =>
      change f.Attached top at attached
      have inside : ∀ tree ∈ trees, tree.value ∈ f.children top := fun tree member =>
        listed ▸ List.mem_map_of_mem member
      rw [boxesAt,boxesAt,Tree.map_node,Tree.map_node]
      refine .node (inputs top attached) ?_ ?_
      · rw [List.forall₂_map_left_iff,List.forall₂_map_right_iff,List.forall₂_same]
        intro tree member wraps
        rw [Tree.value_map,Tree.value_map]
        exact marks top attached wraps _ (inside tree member)
      · rw [List.forall₂_map_left_iff,List.forall₂_map_right_iff,List.forall₂_same]
        intro tree member
        exact ih tree member (.child (linked.mem_children.mp (inside tree member)) attached)

-- The extra time finds what the last one found, if that left the runs it was given.
theorem fourSteps_update (path : f.Reachable) (runs : SameRuns (f.fourSteps false) f.update) :
    f.update.fourSteps true = f.update := by
  have linked := path.linked
  have present := contains_root linked
  have acyclic := acyclic_root linked
  have same := sameLinks_fourSteps f false
  have first := boxesAt_fourSteps linked (.refl f) false
  have update := boxesAt_update linked
  have outlines := outlines_outline linked present acyclic
  have attached : f.Attached (f.outline .root).value := by
    rw [value_outline]
    exact .self
  have inputs : ∀ key, f.Attached key → Box.SameInputs ((f.fourSteps false).box key) (f.update.box key) := by
    intro key inside
    have once := fourSteps_kept linked false inside
    exact (once.symm.trans (layOutAt_kept linked present acyclic none inside)).inputs
  have alike := runsAlike_boxesAt linked outlines attached inputs fun parent inside wraps child listed =>
    runs parent (same.within_iff.mpr inside) wraps child (by rwa [same.children_eq])
  rw [first,update] at alike
  refine (eq_fourSteps linked (sameLinks_update f) (sameLinks_update f) (fun _ => rfl) ?_ fun _ _ => rfl).symm
  rw [update]
  exact (Tree.pass_layOut alike).symm

def twoRuns : Forest := after
  [.setContainerFlags .root (.ofWord 6),.setSize .root ⟨100,100⟩,.createChild .root,.setSize ⟨1⟩ ⟨20,60⟩,
    .createChild .root,.setSize ⟨2⟩ ⟨30,60⟩]

theorem sameRuns_of_checked (linked : f.Linked)
    (checked : ∀ parent ∈ f.keys, (f.box parent).arrangement = .columnWrap →
      ∀ child ∈ f.children parent, (f.box child).flags.isBreak = (g.box child).flags.isBreak) : SameRuns f g := by
  intro parent attached
  exact checked parent (mem_keys.mpr (linked.contains_attached attached))

theorem fourSteps_update_twoRuns : twoRuns.Reachable ∧ (twoRuns.update.box ⟨2⟩).flags.isBreak = true ∧
    SameRuns (twoRuns.fourSteps false) twoRuns.update ∧ twoRuns.update.fourSteps true = twoRuns.update := by
  have path : twoRuns.Reachable := reachable_after _
  have runs : SameRuns (twoRuns.fourSteps false) twoRuns.update :=
    sameRuns_of_checked ((sameLinks_fourSteps _ _).linked path.linked) (by decide +kernel)
  exact ⟨path,by decide +kernel,runs,fourSteps_update path runs⟩

-- A wrapping column in another. Before its two children break into runs it is as tall
-- as both, cut at its maximum, which leaves too little room for what comes after it;
-- then it is as tall as the taller one.
def nestedColumns : Forest := after
  [.setContainerFlags .root (.ofWord 6),.setSize .root ⟨200,100⟩,.createChild .root,
    .setContainerFlags ⟨1⟩ (.ofWord 6),.setMaximumSize ⟨1⟩ ⟨unset,60⟩,.createChild ⟨1⟩,.setSize ⟨2⟩ ⟨10,40⟩,
    .createChild ⟨1⟩,.setSize ⟨3⟩ ⟨10,40⟩,.createChild .root,.setSize ⟨4⟩ ⟨30,50⟩]

-- The first time found a run that the second gave up, after placing a control by it.
theorem fourSteps_update_fails :
    (¬∀ f : Forest, f.Reachable → SameRuns (f.fourSteps false) f.update) ∧
      ¬∀ f : Forest, f.Reachable → ∀ key, f.Attached key →
        ((f.update.fourSteps true).box key).rect = (f.update.box key).rect ∧
          ((f.update.fourSteps true).box key).flags.isBreak = (f.update.box key).flags.isBreak := by
  have path : nestedColumns.Reachable := reachable_after _
  have attached : nestedColumns.Attached ⟨4⟩ := .child (by decide) .self
  constructor
  · intro always
    have moved : ((nestedColumns.fourSteps false).box ⟨4⟩).flags.isBreak ≠ (nestedColumns.update.box ⟨4⟩).flags.isBreak := by
      decide +kernel
    exact moved (always nestedColumns path .root .self (by decide +kernel) ⟨4⟩ (by decide +kernel))
  · intro always
    have moved : ((nestedColumns.update.fourSteps true).box ⟨4⟩).rect ≠ (nestedColumns.update.box ⟨4⟩).rect := by
      decide +kernel
    exact moved (always nestedColumns path ⟨4⟩ attached).1

end BoxLayout.Forest
