import BoxLayout.Proofs.Number.Order
import BoxLayout.Proofs.Layout.Lasting

namespace BoxLayout

-- Sizes between their bounds. Every write of a size brings it between them, and the
-- only thing done to it later is the clipping of a constraining parent.

namespace Box

def Bounded (b : Box) (axis : Axis) : Prop := Between (b.effectiveMinimum axis) (b.maximum axis) (b.extent axis)

variable {b : Box} {axis other : Axis} {size : Single}

theorem violatedBounds_of_between (between : Between (b.effectiveMinimum axis) (b.maximum axis) size) :
    b.violatedBounds axis size = none := by
  unfold Box.violatedBounds
  refine if_neg ?_
  rintro (⟨set,tooSmall⟩ | ⟨set,apart,tooLarge⟩)
  · exact not_lt_sub_tolerance set (between.low set) tooSmall
  · exact not_add_tolerance_lt set (between.high set (Single.not_lt_of_le apart)) tooLarge

theorem bounded_withExtent (between : Between (b.effectiveMinimum axis) (b.maximum axis) size) :
    (b.withExtent axis size).Bounded axis := by
  unfold Bounded
  rw [extent_withExtent,if_pos rfl]
  exact between

def Plain (b : Box) (axis : Axis) : Prop := ¬(0 < b.fixedSize.get axis ∧ b.container.preventCrush.get axis = true)

theorem bounded_sized (plain : b.Plain axis) (children : List Box) : (b.sized axis children).Bounded axis := by
  unfold Box.sized
  dsimp only
  split
  · rename_i fixed
    have minimum : (b.withStart axis (b.margins.start axis)).effectiveMinimum axis = b.minimum axis :=
      if_neg fun uncrushed => plain ⟨fixed,uncrushed⟩
    apply bounded_withExtent
    rw [minimum]
    exact constrain_between
  · exact bounded_withExtent constrain_between

theorem final_between (shares : Run.Shares) (bonus : Single) :
    Between (b.effectiveMinimum axis) (b.maximum axis) (shares.final axis bonus b) := by
  unfold Run.Shares.final
  split
  · exact constrain_between
  · exact constrain_between

theorem bounded_placing (axis : Axis) (container : ContainerFlags) :
    Placing axis container fun _ b => container.constrainSize = false → b.Bounded axis where
  overlaid {a b} _ bounded span := by
    intro free
    have filled : ∀ wanted, (b.withExtent axis (b.bounded axis wanted)).Bounded axis := fun _ =>
      bounded_withExtent constrain_between
    unfold Box.overlaidIn
    split
    · exact bounded free
    · exact bounded free
    · exact filled _
    · exact bounded free
  squeezed _ bounded span := by
    intro free
    rw [free]
    exact bounded_withExtent constrain_between
  floated bounded span := by
    intro free
    unfold Box.floatedIn
    split
    · exact bounded_withExtent constrain_between
    · exact bounded free
  onRun _ _ _ _ bounded shares bonus start := fun _ => bounded_withExtent (final_between shares bonus)
  withBreak bounded value := bounded

theorem bounded_writing (apart : other ≠ axis) : Writing axis fun a b : Box =>
    ∀ container : ContainerFlags, (container.constrainSize = false → a.Bounded other) →
      container.constrainSize = false → b.Bounded other where
  withStart kept value := kept
  withExtent {a b} kept value := by
    have extent : (b.withExtent axis value).extent other = b.extent other := by rw [extent_withExtent,if_neg apart]
    unfold Bounded
    rw [extent]
    exact kept
  withBreak kept value := kept
  withContent {a b} kept _ value := by
    unfold Bounded
    rw [effectiveMinimum_withContent apart]
    exact kept

theorem bounded_lasting : Lasting (fun axis b => b.Plain axis)
    (fun axis container b => container.constrainSize = false → b.Bounded axis) where
  kept same plain := by
    unfold Plain
    rw [← same.inputs.fixedSize,← same.inputs.container]
    exact plain
  sized plain _ children := fun _ => bounded_sized plain children
  placing := bounded_placing
  clipped constrains _ _ := fun free => absurd (constrains.symm.trans free) nofun
  writing := bounded_writing

end Box
end BoxLayout
