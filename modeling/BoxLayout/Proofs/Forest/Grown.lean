import Mathlib.Tactic.IntervalCases
import BoxLayout.Proofs.Forest.Mirrored
import BoxLayout.Proofs.Forest.Steps
import BoxLayout.Proofs.Layout.Grown

namespace BoxLayout

instance (x y : Single) : Decidable (x.Ordered y) := inferInstanceAs (Decidable (_ ∧ _))

namespace Forest
variable {f g : Forest} {key : Key} {axis : Axis} {renamed : Key → Key}

-- Two forests with the same tree below the root, whatever the keys are; in the second each
-- control asks for at least as much along the axis. Sizing the axis leaves no control of the
-- second smaller than its counterpart, nor with less content unless its size is fixed. The
-- forests may be those between the passes of an update as well.
theorem sizeStep_monotone (here : f.Linked) (there : g.Linked) (same : g.outline .root = (f.outline .root).map renamed)
    (grown : ∀ key, f.Attached key → Box.AsksMore axis (f.box key) (g.box (renamed key))) (keep : Bool)
    (attached : f.Attached key) :
    ((f.sizeStep axis keep).box key).extent axis ≤ ((g.sizeStep axis keep).box (renamed key)).extent axis ∧
      (¬0 < (f.box key).fixedSize.get axis →
        ((f.sizeStep axis keep).box key).contentSize.get axis ≤ ((g.sizeStep axis keep).box (renamed key)).contentSize.get axis) := by
  have paired : ∀ h : Forest, h.boxesAt (g.outline .root) = (f.outline .root).map (h.box ∘ renamed) := by
    intro h
    rw [same,boxesAt,Tree.map_map]
  have before : Tree.Related (Box.AsksMore axis) (f.boxesAt (f.outline .root)) (g.boxesAt (g.outline .root)) := by
    rw [paired]
    exact Tree.Related.maps.mpr fun key member => grown key (here.mem_outline_root.mp member)
  have sized := @Tree.sized_mono _ _ _ keep false before
  rw [← boxesAt_sizeStep here,← boxesAt_sizeStep there,paired] at sized
  have larger := Tree.Related.maps.mp sized key (here.mem_outline_root.mpr attached)
  refine ⟨larger.extent.2,fun flexible => (larger.content ?_).2⟩
  have kept := written_sizeStep (Box.SameKept.writing axis) Box.SameKept.refl here attached keep
  rwa [← kept.inputs.fixedSize]

def modest : Forest := after
  [.setContainerFlags .root (.ofWord 5),.createChild .root,.setSize ⟨1⟩ ⟨10,10⟩,.createChild .root,
    .setContainerFlags ⟨2⟩ (.ofWord 65),.setLayoutFlags ⟨2⟩ (.ofWord 256),.setMaximumSize ⟨2⟩ ⟨30,unset⟩,
    .createChild ⟨2⟩,.setSize ⟨3⟩ ⟨20,5⟩,.createChild .root,.setLayoutFlags ⟨4⟩ (.ofWord 1024),
    .setFloatingPosition ⟨4⟩ ⟨-15,0⟩]

def ample : Forest := [.setSize ⟨1⟩ ⟨12,10⟩,.setMargins ⟨1⟩ (.uniform 2),.setMinimumSize ⟨2⟩ ⟨25,unset⟩,
  .setSize ⟨3⟩ ⟨40,5⟩,.setPadding ⟨2⟩ (.symmetric 3 1),.setMinimumSize ⟨4⟩ ⟨70,1⟩].foldl perform modest

theorem sizeStep_ample :
    modest.Linked ∧ ample.Linked ∧ ample.outline .root = (modest.outline .root).map id ∧
      (∀ key, modest.Attached key → Box.AsksMore .x (modest.box key) (ample.box key)) ∧ modest.Attached ⟨2⟩ ∧
      ((modest.sizeStep .x false).box ⟨2⟩).extent .x ≤ ((ample.sizeStep .x false).box ⟨2⟩).extent .x ∧
      ((modest.sizeStep .x false).box ⟨2⟩).contentSize.get .x ≤ ((ample.sizeStep .x false).box ⟨2⟩).contentSize.get .x := by
  have here : modest.Linked := (reachable_after _).linked
  have there : ample.Linked := ((reachable_after _).performs _).linked
  have same : ample.outline .root = (modest.outline .root).map id := by
    rw [Tree.map_id]
    exact SameLinks.outline_eq (sameLinks_of_checked here there (by decide +kernel) (by decide +kernel)) .root
  have grown : ∀ key, modest.Attached key → Box.AsksMore .x (modest.box key) (ample.box key) := by
    intro key attached
    have inside : key.index < 5 := attached.contains (contains_root here)
    obtain ⟨index⟩ := key
    interval_cases index <;> constructor <;> decide +kernel
  have attached : modest.Attached ⟨2⟩ := .child (by decide) .self
  obtain ⟨extent,content⟩ := sizeStep_monotone here there same grown false attached
  exact ⟨here,there,same,grown,attached,extent,content (by decide)⟩

end Forest
end BoxLayout
