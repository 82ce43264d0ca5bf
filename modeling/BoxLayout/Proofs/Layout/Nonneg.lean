import BoxLayout.Proofs.Number.Nonneg
import BoxLayout.Proofs.Layout.Bounded

namespace BoxLayout

-- Sizes that are not negative. Every step but one sees to that: an open filler that
-- is handed its part of what the bounds of its siblings took is not stopped at zero.

namespace Box
variable {b : Box} {axis other : Axis} {value size : Single} {mark : Bool} {container : ContainerFlags}

structure Stretches (axis : Axis) (container : ContainerFlags) (b : Box) : Prop where
  stacked : container.arrangement.primaryAxis? = some axis
  inFlow : b.flags.inFlow = true
  fills : b.flags.fills axis = true
  unset : ¬IsSet (b.effectiveMinimum axis)

def Padded (axis : Axis) (b : Box) : Prop := 0 ≤ b.padding.start axis ∧ 0 ≤ b.padding.finish axis

def Filled (axis : Axis) (container : ContainerFlags) (b : Box) : Prop :=
  0 ≤ b.extent axis ∨ b.Stretches axis container

theorem Filled.withStart (filled : b.Filled axis container) : (b.withStart other value).Filled axis container :=
  filled.imp id fun stretches => ⟨stretches.stacked,stretches.inFlow,stretches.fills,stretches.unset⟩

theorem Filled.withBreak (filled : b.Filled axis container) : (b.withBreak mark).Filled axis container :=
  filled.imp id fun stretches => ⟨stretches.stacked,stretches.inFlow,stretches.fills,stretches.unset⟩

theorem filled_withExtent (nonneg : 0 ≤ size) : (b.withExtent axis size).Filled axis container := by
  left
  rw [extent_withExtent,if_pos rfl]
  exact nonneg

theorem nonneg_contentNeed (b : Box) (axis : Axis) (children : List Box) : 0 ≤ b.contentNeed axis children := by
  unfold contentNeed
  split
  · split
    · exact Single.nonneg_max_right (nonneg_largest _)
    · exact Single.nonneg_max_right (nonneg_largest _)
  · split
    · exact Single.nonneg_max_right (nonneg_largest _)
    · exact nonneg_largest _

theorem filled_sized (padded : b.Padded axis) (container : ContainerFlags) (children : List Box) :
    (b.sized axis children).Filled axis container := by
  by_cases fixed : 0 < b.fixedSize.get axis
  · rw [sized_fixed fixed]
    exact filled_withExtent (nonneg_constrain (Single.le_of_lt fixed))
  · have padding := nonneg_total b.padding axis padded.1 padded.2
    rw [sized_content fixed]
    exact filled_withExtent (nonneg_constrain (Single.nonneg_add (nonneg_contentNeed b axis children) padding))

theorem filled_floatedIn (filled : b.Filled axis container) (span : Span) : (b.floatedIn axis span).Filled axis container := by
  unfold floatedIn
  split
  · exact filled_withExtent (nonneg_constrain Single.nonneg_positivePart)
  · exact filled.withStart

theorem filled_overlaidIn (filled : b.Filled axis container) (span : Span) : (b.overlaidIn axis span).Filled axis container := by
  unfold overlaidIn
  split
  · exact filled.withStart
  · exact filled.withStart
  · exact (filled_withExtent (nonneg_constrain Single.nonneg_positivePart)).withStart
  · exact filled.withStart

theorem filled_squeezedIn (filled : b.Filled axis container) (span : Span) (constrained : Bool) :
    (b.squeezedIn axis span constrained).Filled axis container := by
  refine filled_withExtent (nonneg_constrain ?_)
  split
  · exact Single.nonneg_positivePart
  · rename_i smaller
    rcases filled with nonneg | stretches
    · exact Single.nonneg_min nonneg Single.nonneg_positivePart
    · exact absurd (of_decide_eq_true stretches.fills) smaller

theorem filled_clippedTo (filled : b.Filled axis container) (span : Span) :
    (b.clippedTo axis (some span)).Filled axis container := by
  unfold clippedTo
  dsimp only
  split
  · exact filled_withExtent Single.nonneg_positivePart
  · exact filled

-- Only a filler is given less than nothing, and only without a minimum.
theorem filled_onRun (stacked : container.arrangement.primaryAxis? = some axis) (flows : b.flags.inFlow = true)
    (filled : b.Filled axis container) (shares : Run.Shares) (bonus start : Single) :
    ((b.withStart axis start).withExtent axis (shares.final axis bonus b)).Filled axis container := by
  by_cases set : IsSet (b.effectiveMinimum axis)
  · exact filled_withExtent (Single.le_trans set ((final_between shares bonus).low set))
  · cases fills : b.flags.fills axis with
    | true => exact .inr ⟨stacked,flows,fills,set⟩
    | false =>
        have closed : ¬shares.Open axis b := fun isOpen => absurd (fills.symm.trans isOpen.1) nofun
        have nonneg : 0 ≤ b.extent axis := filled.resolve_right fun stretches =>
          absurd (fills.symm.trans stretches.fills) nofun
        have ideal : 0 ≤ shares.ideal axis b := by
          unfold Run.Shares.ideal
          rw [fills,if_neg nofun]
          split
          · exact nonneg
          · exact Single.nonneg_positivePart
        have final : shares.final axis bonus b = shares.first axis b := if_neg fun given => closed given.1
        rw [final]
        exact filled_withExtent (nonneg_constrain ideal)

theorem filled_placing (axis : Axis) (container : ContainerFlags) :
    Placing axis container fun _ b => b.Filled axis container where
  overlaid _ := filled_overlaidIn
  squeezed _ filled span := filled_squeezedIn filled span _
  floated := filled_floatedIn
  onRun stacked _ _ := filled_onRun stacked
  withBreak filled _ := filled.withBreak

theorem filled_writing (apart : other ≠ axis) : Writing axis fun a b : Box =>
    ∀ container, a.Filled other container → b.Filled other container where
  withStart kept value container filled := (kept container filled).withStart
  withExtent {a b} kept value container filled := by
    refine (kept container filled).imp ?_ fun stretches => ⟨stretches.stacked,stretches.inFlow,stretches.fills,stretches.unset⟩
    rw [extent_withExtent,if_neg apart]
    exact id
  withBreak kept value container filled := (kept container filled).withBreak
  withContent {a b} kept _ value container filled := by
    refine (kept container filled).imp id fun stretches => ⟨stretches.stacked,stretches.inFlow,stretches.fills,?_⟩
    rw [effectiveMinimum_withContent apart]
    exact stretches.unset

theorem filled_lasting : Lasting Padded Filled where
  kept same padded := by
    unfold Padded
    rw [← same.inputs.padding]
    exact padded
  sized := filled_sized
  placing := filled_placing
  clipped _ filled := filled_clippedTo filled
  writing := filled_writing

end Box
end BoxLayout
