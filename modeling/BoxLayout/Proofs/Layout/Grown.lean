import BoxLayout.Proofs.Number.Value
import BoxLayout.Proofs.Number.Constrain
import BoxLayout.Proofs.Layout.Nonneg
import BoxLayout.Proofs.Layout.Sized

namespace BoxLayout

-- The size pass is monotone: where every control asks for at least as much, none is
-- sized smaller. Rounding keeps the order, so what has to be seen is that no sum along
-- the way is without a value.

namespace Single

def Ordered (x y : Single) : Prop := 0 ≤ x ∧ x ≤ y

variable {x y z w : Single}

theorem Ordered.nonneg (ordered : Ordered x y) : 0 ≤ y := le_trans ordered.1 ordered.2

theorem Ordered.add (one : Ordered x y) (two : Ordered z w) : Ordered (x + z) (y + w) := by
  have low := nonneg_add one.1 two.1
  have middle := nonneg_add one.nonneg two.1
  have high := nonneg_add one.nonneg two.nonneg
  have number : ∀ {v : Single}, 0 ≤ v → v ≠ .nan := fun nonneg => (ne_nan_of_le nonneg).2
  exact ⟨low,le_trans (add_le_add_right one.2 (number low) (number middle)) (add_le_add_left two.2 (number middle) (number high))⟩

theorem max_le_max (one : x ≤ y) (two : z ≤ w) : max x z ≤ max y w :=
  max_le (le_trans one (le_max_left (ne_nan_of_le one).2)) (le_trans two (le_max_right (ne_nan_of_le two).2))

theorem add_ne_nan_of_finite (finite : x.IsFinite) (number : y ≠ .nan) : x + y ≠ .nan := by
  cases y with
  | nan => exact absurd rfl number
  | infinite negative =>
      cases x with
      | finite => exact nofun
      | _ => cases finite
  | finite => exact finite.add_ne_nan trivial

end Single

open Single

theorem map_related {α β γ δ : Type} {R : α → β → Prop} {S : γ → δ → Prop} {f : α → γ} {g : β → δ} {xs : List α} {ys : List β}
    (related : List.Forall₂ R xs ys) (each : ∀ {a b}, R a b → S (f a) (g b)) : List.Forall₂ S (xs.map f) (ys.map g) :=
  List.rel_map (fun _ _ one => each one) related

section Sums
variable {xs ys : List Single}

theorem ordered_total (ordered : List.Forall₂ Ordered xs ys) : Ordered (total xs) (total ys) := by
  have folded : ∀ {start start' : Single}, Ordered start start' → Ordered (xs.foldl (· + ·) start) (ys.foldl (· + ·) start') := by
    induction ordered with
    | nil => exact fun begun => begun
    | cons one _ ih => exact fun begun => ih (begun.add one)
  exact folded ⟨nonneg_zero,nonneg_zero⟩

theorem largest_mono (ordered : List.Forall₂ (· ≤ ·) xs ys) : largest xs ≤ largest ys := by
  have folded : ∀ {start start' : Single}, start ≤ start' → xs.foldl max start ≤ ys.foldl max start' := by
    induction ordered with
    | nil => exact fun begun => begun
    | cons one _ ih => exact fun begun => ih (max_le_max begun one)
  exact folded nonneg_zero

theorem ordered_largest (ordered : List.Forall₂ (· ≤ ·) xs ys) : Ordered (largest xs) (largest ys) :=
  ⟨nonneg_largest xs,largest_mono ordered⟩

end Sums

namespace Box
variable {a b : Box} {axis : Axis} {xs ys : List Box}

-- The same settings, except that the second box may ask for more: a larger fixed size, where
-- both are fixed, a larger minimum, wider margins and padding. Spacing is never negative.
structure AsksMore (axis : Axis) (a b : Box) : Prop where
  container : b.container = a.container
  flags : b.flags = a.flags
  maximum : b.maximum axis = a.maximum axis
  position : b.floatingPosition.get axis = a.floatingPosition.get axis
  finite : (a.floatingPosition.get axis).IsFinite
  fixed : 0 < b.fixedSize.get axis ↔ 0 < a.fixedSize.get axis
  fixedSize : 0 < a.fixedSize.get axis → a.fixedSize.get axis ≤ b.fixedSize.get axis
  minimum : a.minimum axis ≤ b.minimum axis
  marginStart : Ordered (a.margins.start axis) (b.margins.start axis)
  marginFinish : Ordered (a.margins.finish axis) (b.margins.finish axis)
  paddingStart : Ordered (a.padding.start axis) (b.padding.start axis)
  paddingFinish : Ordered (a.padding.finish axis) (b.padding.finish axis)

structure Larger (axis : Axis) (a b : Box) : Prop extends AsksMore axis a b where
  extent : Ordered (a.extent axis) (b.extent axis)
  content : ¬0 < a.fixedSize.get axis → Ordered (a.contentSize.get axis) (b.contentSize.get axis)

namespace Larger

theorem outerExtent (larger : Larger axis a b) : Ordered (a.outerExtent axis) (b.outerExtent axis) :=
  (larger.marginStart.add larger.extent).add larger.marginFinish

theorem reach (larger : Larger axis a b) : a.reach axis ≤ b.reach axis := by
  have outer := larger.outerExtent
  unfold Box.reach
  rw [larger.flags,larger.position]
  split
  · exact add_le_add_left outer.2 (add_ne_nan_of_finite larger.finite (ne_nan_of_le outer.1).2)
      (add_ne_nan_of_finite larger.finite (ne_nan_of_le outer.nonneg).2)
  · exact outer.2

end Larger

section Needs
variable (related : List.Forall₂ (Larger axis) xs ys)
include related

theorem reach_mono : largest (xs.map (·.reach axis)) ≤ largest (ys.map (·.reach axis)) :=
  largest_mono (map_related related Larger.reach)

theorem ordered_run : Ordered (total (xs.map (·.outerExtent axis))) (total (ys.map (·.outerExtent axis))) :=
  ordered_total (map_related related Larger.outerExtent)

theorem ordered_depth : Ordered (largest (xs.map (·.outerExtent axis))) (largest (ys.map (·.outerExtent axis))) :=
  ordered_largest (map_related related fun one => one.outerExtent.2)

theorem filter_larger (kept : LayoutFlags → Bool) :
    List.Forall₂ (Larger axis) (xs.filter fun b => kept b.flags) (ys.filter fun b => kept b.flags) :=
  filter_related related fun one => by rw [one.flags]

theorem splitBefore_larger (starts : LayoutFlags → Bool) :
    List.Forall₂ (List.Forall₂ (Larger axis)) (splitBefore (fun b => starts b.flags) xs) (splitBefore (fun b => starts b.flags) ys) :=
  splitBefore_related related fun one => by rw [one.flags]

theorem baseline_mono : baseline axis xs ≤ baseline axis ys := reach_mono (filter_larger related fun flags => !flags.inFlow)

theorem stackedNeed_mono : stackedNeed axis xs ≤ stackedNeed axis ys :=
  max_le_max (ordered_run (filter_larger related (·.inFlow))).2 (baseline_mono related)

theorem wrappedStackedNeed_mono : wrappedStackedNeed axis xs ≤ wrappedStackedNeed axis ys := by
  have runs := splitBefore_larger (filter_larger related (·.inFlow)) (·.startsRun)
  exact max_le_max (largest_mono (map_related runs fun run => (ordered_run run).2)) (baseline_mono related)

theorem wrappedOverlaidNeed_mono : wrappedOverlaidNeed axis xs ≤ wrappedOverlaidNeed axis ys := by
  have runs := splitBefore_larger (filter_larger related fun flags => !flags.floating) fun flags => flags.inFlow && flags.startsRun
  exact max_le_max (ordered_total (map_related runs ordered_depth)).2
    (reach_mono (filter_larger related (·.floating)))

theorem ordered_contentNeed (same : b.container = a.container) : Ordered (a.contentNeed axis xs) (b.contentNeed axis ys) := by
  have arrangement : b.arrangement = a.arrangement := congrArg ContainerFlags.arrangement same
  refine ⟨nonneg_contentNeed a axis xs,?_⟩
  unfold contentNeed
  rw [arrangement]
  split
  · split
    · exact wrappedStackedNeed_mono related
    · exact stackedNeed_mono related
  · split
    · exact wrappedOverlaidNeed_mono related
    · exact reach_mono related

end Needs

theorem AsksMore.written (grown : AsksMore axis a b) (content content' : PerAxis Single) (rect rect' : Rect) :
    AsksMore axis { a with contentSize := content, rect := rect } { b with contentSize := content', rect := rect' } := by
  obtain ⟨container,flags,maximum,position,finite,fixed,fixedSize,minimum,marginStart,marginFinish,paddingStart,paddingFinish⟩ := grown
  exact ⟨container,flags,maximum,position,finite,fixed,fixedSize,minimum,marginStart,marginFinish,paddingStart,paddingFinish⟩

theorem AsksMore.releaseBreak (grown : AsksMore axis a b) (kept : Bool) : AsksMore axis (a.releaseBreak axis kept) (b.releaseBreak axis kept) := by
  unfold Box.releaseBreak
  split
  · obtain ⟨container,flags,maximum,position,finite,fixed,fixedSize,minimum,marginStart,marginFinish,paddingStart,paddingFinish⟩ := grown
    exact ⟨container,congrArg (fun flags : LayoutFlags => { flags with isBreak := false }) flags,maximum,position,finite,
      fixed,fixedSize,minimum,marginStart,marginFinish,paddingStart,paddingFinish⟩
  · exact grown

theorem AsksMore.minimumOver {content content' : Single} (grown : AsksMore axis a b) (more : content ≤ content') :
    a.minimumOver axis content ≤ b.minimumOver axis content' := by
  unfold Box.minimumOver
  rw [grown.container]
  split
  · exact max_le_max grown.minimum more
  · exact grown.minimum

theorem constrain_le_constrain {value wanted minimum lower maximum : Single} (more : Ordered value wanted)
    (raised : minimum ≤ lower) : Ordered (constrain value minimum maximum) (constrain wanted lower maximum) :=
  ⟨nonneg_constrain more.1,le_trans (constrain_mono more.2)
    (constrain_mono_minimum (ne_nan_of_le more.2).2 fun _ => raised)⟩

theorem AsksMore.sized (grown : AsksMore axis a b) (related : List.Forall₂ (Larger axis) xs ys) :
    Larger axis (a.sized axis xs) (b.sized axis ys) := by
  by_cases fixed : 0 < a.fixedSize.get axis
  · have sizes : Ordered (constrain (a.fixedSize.get axis) (a.minimum axis) (a.maximum axis))
        (constrain (b.fixedSize.get axis) (b.minimum axis) (b.maximum axis)) := by
      rw [grown.maximum]
      exact constrain_le_constrain ⟨le_of_lt fixed,grown.fixedSize fixed⟩ grown.minimum
    rw [sized_fixed fixed,sized_fixed (grown.fixed.mpr fixed)]
    refine ⟨grown.written _ _ _ _,?_,fun flexible => absurd fixed flexible⟩
    rw [extent_withExtent,extent_withExtent,if_pos rfl,if_pos rfl]
    exact sizes
  · have content : Ordered (a.contentNeed axis xs + a.padding.total axis) (b.contentNeed axis ys + b.padding.total axis) :=
      (ordered_contentNeed related grown.container).add (grown.paddingStart.add grown.paddingFinish)
    have sizes : ∀ maximum, Ordered (constrain _ _ maximum) (constrain _ _ maximum) := fun _ =>
      constrain_le_constrain content (grown.minimumOver content.2)
    rw [sized_content fixed,sized_content (grown.fixed.not.mpr fixed),grown.maximum]
    generalize a.contentNeed axis xs + a.padding.total axis = need at content sizes
    generalize b.contentNeed axis ys + b.padding.total axis = need' at content sizes
    refine ⟨grown.written _ _ _ _,?_,fun _ => ?_⟩
    · rw [extent_withExtent,extent_withExtent,if_pos rfl,if_pos rfl]
      exact sizes _
    · rw [content_withExtent,content_withExtent,content_withContent,content_withContent,if_pos rfl,if_pos rfl]
      exact content

end Box

-- From the leaves up, and each control sees to its own.
theorem Tree.sized_mono {t u : Tree Box} {axis : Axis} {keep kept : Bool} (grown : Tree.Related (Box.AsksMore axis) t u) :
    Tree.Related (Box.Larger axis) (t.sized axis keep kept) (u.sized axis keep kept) := by
  induction t generalizing u kept with
  | node value children ih =>
      cases grown with
      | @node _ value' _ children' here below =>
          have arrangement : value'.arrangement = value.arrangement := congrArg ContainerFlags.arrangement here.container
          rw [Tree.sized_node,Tree.sized_node,arrangement]
          generalize (keep && decide (value.arrangement = .columnWrap)) = inner
          have sizedChildren : List.Forall₂ (Tree.Related (Box.Larger axis)) (children.map (Tree.sized axis keep inner))
              (children'.map (Tree.sized axis keep inner)) := by
            rw [List.forall₂_map_left_iff,List.forall₂_map_right_iff]
            exact ((List.forall₂_and_left _ _).mpr ⟨ih,below⟩).imp fun _ _ both => both.1 both.2
          exact .node ((here.releaseBreak kept).sized (Tree.Related.values sizedChildren)) sizedChildren

end BoxLayout
