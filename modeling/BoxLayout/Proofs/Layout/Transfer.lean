import Mathlib.Data.List.Forall2
import BoxLayout.Layout.Placement

namespace BoxLayout

-- Layouts of two trees, compared. A relation between boxes transfers through
-- placement when it fixes all that placement reads and survives what it writes. The
-- axes of the two layouts need not be the same.

structure Box.Matches (axis axis' : Axis) (a b : Box) : Prop where
  primary : a.arrangement.primaryAxis? = some axis ↔ b.arrangement.primaryAxis? = some axis'
  wraps : a.arrangement.wraps = b.arrangement.wraps
  free : a.arrangement = .free ↔ b.arrangement = .free
  columnWrap : a.arrangement = .columnWrap ↔ b.arrangement = .columnWrap
  alignment : a.container.alignment = b.container.alignment
  constrainSize : a.container.constrainSize = b.container.constrainSize
  preventCrush : a.container.preventCrush.get axis = b.container.preventCrush.get axis'
  anchor : a.flags.anchor.get axis = b.flags.anchor.get axis'
  fixed : a.flags.fixed.get axis = b.flags.fixed.get axis'
  forceBreak : a.flags.forceBreak = b.flags.forceBreak
  floating : a.flags.floating = b.flags.floating
  stacked : a.flags.stacked = b.flags.stacked
  marginStart : a.margins.start axis = b.margins.start axis'
  marginFinish : a.margins.finish axis = b.margins.finish axis'
  paddingStart : a.padding.start axis = b.padding.start axis'
  paddingFinish : a.padding.finish axis = b.padding.finish axis'
  fixedSize : a.fixedSize.get axis = b.fixedSize.get axis'
  minimum : a.minimum axis = b.minimum axis'
  maximum : a.maximum axis = b.maximum axis'
  floatingPosition : a.floatingPosition.get axis = b.floatingPosition.get axis'

namespace Box.Matches
variable {axis axis' : Axis} {a b : Box}

theorem fills (matching : Matches axis axis' a b) : a.flags.fills axis = b.flags.fills axis' := by
  simp only [LayoutFlags.fills,matching.anchor]

theorem inFlow (matching : Matches axis axis' a b) : a.flags.inFlow = b.flags.inFlow := by
  simp only [LayoutFlags.inFlow,matching.floating,matching.stacked]

theorem marginTotal (matching : Matches axis axis' a b) : a.margins.total axis = b.margins.total axis' := by
  simp only [Spacing.total,matching.marginStart,matching.marginFinish]

theorem paddingTotal (matching : Matches axis axis' a b) : a.padding.total axis = b.padding.total axis' := by
  simp only [Spacing.total,matching.paddingStart,matching.paddingFinish]

end Box.Matches

structure Transfer (axis axis' : Axis) (R : Box → Box → Prop) : Prop where
  settings : ∀ {a b}, R a b → Box.Matches axis axis' a b
  start : ∀ {a b}, R a b → a.start axis = b.start axis'
  extent : ∀ {a b}, R a b → a.extent axis = b.extent axis'
  minimum : ∀ {a b}, R a b → a.effectiveMinimum axis = b.effectiveMinimum axis'
  isBreak : ∀ {a b}, R a b → a.flags.isBreak = b.flags.isBreak
  withStart : ∀ {a b}, R a b → ∀ value, R (a.withStart axis value) (b.withStart axis' value)
  withExtent : ∀ {a b}, R a b → ∀ value, R (a.withExtent axis value) (b.withExtent axis' value)
  withBreak : ∀ {a b}, R a b → ∀ value, R (a.withBreak value) (b.withBreak value)

section Lists
variable {α β γ : Type} {R : α → β → Prop} {xs : List α} {ys : List β}

theorem map_eq_of_related {f : α → γ} {g : β → γ} (related : List.Forall₂ R xs ys)
    (same : ∀ {a b}, R a b → f a = g b) : xs.map f = ys.map g := by
  have mapped : List.Forall₂ Eq (xs.map f) (ys.map g) := List.rel_map (fun _ _ one => same one) related
  rwa [List.forall₂_eq_eq_eq] at mapped

theorem filter_related {p : α → Bool} {q : β → Bool} (related : List.Forall₂ R xs ys)
    (same : ∀ {a b}, R a b → p a = q b) : List.Forall₂ R (xs.filter p) (ys.filter q) := by
  refine List.rel_filter ?_ related
  intro a b one
  change p a = true ↔ q b = true
  rw [same one]

theorem splitBefore_related {p : α → Bool} {q : β → Bool} (related : List.Forall₂ R xs ys)
    (same : ∀ {a b}, R a b → p a = q b) :
    List.Forall₂ (List.Forall₂ R) (splitBefore p xs) (splitBefore q ys) := by
  induction related with
  | nil => exact .nil
  | cons one _ ih =>
      unfold splitBefore
      generalize splitBefore p _ = runs at ih ⊢
      generalize splitBefore q _ = runs' at ih ⊢
      cases ih with
      | nil => exact .cons (.cons one .nil) .nil
      | cons run others =>
          cases run with
          | nil => exact .cons (.cons one .nil) .nil
          | cons next rest =>
              dsimp only
              rw [same next]
              split
              · exact .cons (.cons one .nil) (.cons (.cons next rest) others)
              · exact .cons (.cons one (.cons next rest)) others

end Lists

namespace Transfer
variable {axis axis' : Axis} {R : Box → Box → Prop} (transfer : Transfer axis axis' R)
include transfer
variable {a b : Box} {xs ys : List Box}

theorem bounded (related : R a b) (size : Single) : a.bounded axis size = b.bounded axis' size := by
  simp only [Box.bounded,transfer.minimum related,(transfer.settings related).maximum]

theorem outerExtent (related : R a b) : a.outerExtent axis = b.outerExtent axis' := by
  have settings := transfer.settings related
  simp only [Box.outerExtent,settings.marginStart,settings.marginFinish,transfer.extent related]

theorem reach (related : R a b) : a.reach axis = b.reach axis' := by
  have settings := transfer.settings related
  simp only [Box.reach,settings.floating,settings.floatingPosition,transfer.outerExtent related]

theorem startsRun (related : R a b) : a.flags.startsRun = b.flags.startsRun := by
  simp only [LayoutFlags.startsRun,(transfer.settings related).forceBreak,transfer.isBreak related]

theorem opensRun (related : R a b) : Box.opensRun a = Box.opensRun b := by
  simp only [Box.opensRun,(transfer.settings related).inFlow,transfer.startsRun related]

theorem contentSpan (related : R a b) : a.contentSpan axis = b.contentSpan axis' := by
  have settings := transfer.settings related
  have span : ∀ (c : Box) other, c.contentSpan other =
      ⟨c.start other + c.padding.start other,(c.extent other - c.padding.total other).positivePart⟩ := by
    intro c other
    cases other <;> rfl
  rw [span,span,settings.paddingStart,settings.paddingTotal,transfer.start related,transfer.extent related]

theorem overlaidIn (related : R a b) (span : Span) : R (a.overlaidIn axis span) (b.overlaidIn axis' span) := by
  have settings := transfer.settings related
  unfold Box.overlaidIn
  simp only [settings.marginStart,settings.marginFinish,settings.anchor,transfer.extent related,
    transfer.bounded related]
  split
  · exact transfer.withStart related _
  · exact transfer.withStart related _
  · exact transfer.withStart (transfer.withExtent related _) _
  · exact transfer.withStart related _

theorem squeezedIn (related : R a b) (span : Span) (constrained : Bool) :
    R (a.squeezedIn axis span constrained) (b.squeezedIn axis' span constrained) := by
  have settings := transfer.settings related
  unfold Box.squeezedIn
  simp only [settings.marginStart,settings.marginFinish,settings.anchor,settings.maximum,
    transfer.extent related,transfer.minimum related]
  exact transfer.withExtent (transfer.withStart related _) _

theorem floatedIn (related : R a b) (span : Span) : R (a.floatedIn axis span) (b.floatedIn axis' span) := by
  have settings := transfer.settings related
  unfold Box.floatedIn
  simp only [settings.marginStart,settings.marginTotal,settings.floatingPosition,settings.fills,
    transfer.bounded related]
  split
  · exact transfer.withExtent (transfer.withStart related _) _
  · exact transfer.withStart related _

theorem clippedTo (related : R a b) (clip : Option Span) : R (a.clippedTo axis clip) (b.clippedTo axis' clip) := by
  cases clip with
  | none => exact related
  | some span =>
      unfold Box.clippedTo
      simp only [transfer.start related,transfer.extent related]
      split
      · exact transfer.withExtent related _
      · exact related

end Transfer
end BoxLayout
