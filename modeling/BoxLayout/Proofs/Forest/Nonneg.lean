import BoxLayout.Proofs.Forest.Lasting
import BoxLayout.Proofs.Layout.Nonneg

namespace BoxLayout

def Box.Tame (b : Box) : Prop :=
  (∀ side ∈ b.margins.sides ++ b.padding.sides, side.IsFinite ∧ 0 ≤ side) ∧
    ∀ number ∈ b.fixedSize.toList ++ b.minimumSize.toList ++ b.maximumSize.toList ++ b.floatingPosition.toList,
      number.IsFinite

instance (b : Box) : Decidable b.Tame := inferInstanceAs (Decidable (_ ∧ _))

theorem Box.Tame.padded {b : Box} (tame : b.Tame) (axis : Axis) : b.Padded axis := by
  have sides : ∀ side ∈ b.padding.sides, 0 ≤ side := fun side listed => (tame.1 side (List.mem_append_right _ listed)).2
  exact ⟨sides _ (b.padding.start_mem_sides axis),sides _ (b.padding.finish_mem_sides axis)⟩

namespace Forest
variable {f : Forest} {key : Key}

-- After an update no attached control has a negative size, apart from fillers without
-- a minimum, along the axis their parent stacks them on. Nothing is asked but that
-- padding is not negative.
theorem update_nonneg (path : f.Reachable) (padded : ∀ key, f.Attached key → ∀ axis, (f.box key).Padded axis)
    (attached : f.update.Attached key) (axis : Axis) :
    0 ≤ (f.update.box key).extent axis ∨
      ∃ parent, (f.update.links key).parent = some parent ∧
        (f.update.box key).Stretches axis (f.update.box parent).container := by
  obtain ⟨root,below⟩ := Box.filled_lasting.update path.linked padded axis
  cases attached with
  | self =>
      refine root.imp id fun stretches => absurd stretches.stacked ?_
      cases axis <;> decide
  | child under inside => exact (below inside under).imp id fun stretches => ⟨_,under,stretches⟩

-- Two fillers share a row of ten; one of them may not be smaller than a hundred.
def overtaken : Forest := after
  [.setContainerFlags .root (.ofWord 1),.setSize .root ⟨10,10⟩,.createChild .root,.setLayoutFlags ⟨1⟩ (.ofWord 3),
    .setMinimumSize ⟨1⟩ ⟨100,unset⟩,.createChild .root,.setLayoutFlags ⟨2⟩ (.ofWord 3)]

theorem tame_overtaken (present : overtaken.Contains key) : (overtaken.box key).Tame := by
  have checked : ∀ key ∈ overtaken.keys, (overtaken.box key).Tame := by decide +kernel
  exact checked key (mem_keys.mpr present)

theorem update_nonneg_overtaken :
    overtaken.Reachable ∧ (∀ key, overtaken.Attached key → ∀ axis, (overtaken.box key).Padded axis) ∧
      overtaken.update.Attached ⟨1⟩ ∧ 0 ≤ (overtaken.update.box ⟨1⟩).extent .x := by
  have path : overtaken.Reachable := reachable_after _
  have padded : ∀ key, overtaken.Attached key → ∀ axis, (overtaken.box key).Padded axis := fun _ attached =>
    (tame_overtaken (attached.contains (contains_root path.linked))).padded
  have attached : overtaken.update.Attached ⟨1⟩ := (sameLinks_update overtaken).within_iff.mpr (.child (by decide) .self)
  refine ⟨path,padded,attached,?_⟩
  rcases update_nonneg path padded attached .x with nonneg | ⟨parent,_,stretches⟩
  · exact nonneg
  · exact absurd (by decide +kernel) stretches.unset

-- What the other filler takes is taken from this one, far below zero.
theorem update_nonneg_fails :
    ¬∀ f : Forest, f.Reachable → (∀ key, f.Contains key → (f.box key).Tame) →
      ∀ key, f.update.Attached key → ∀ axis, 0 ≤ (f.update.box key).extent axis := by
  intro always
  have attached : overtaken.update.Attached ⟨2⟩ := (sameLinks_update overtaken).within_iff.mpr (.child (by decide) .self)
  have nonneg := always overtaken (reachable_after _) (fun _ => tame_overtaken) ⟨2⟩ attached .x
  exact absurd nonneg (by decide +kernel)

end Forest
end BoxLayout
