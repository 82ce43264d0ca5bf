import BoxLayout.Proofs.Layout.Placed

namespace BoxLayout

-- The size pass over two trees: what children need is the same on both sides, so
-- the same numbers are written.

namespace Box

def minimumOver (b : Box) (axis : Axis) (content : Single) : Single :=
  if b.container.preventCrush.get axis then max (b.minimum axis) content else b.minimum axis

theorem sized_fixed {b : Box} {axis : Axis} (fixed : 0 < b.fixedSize.get axis) (children : List Box) :
    b.sized axis children = (b.withStart axis (b.margins.start axis)).withExtent axis
      (constrain (b.fixedSize.get axis) (b.minimum axis) (b.maximum axis)) := if_pos fixed

theorem sized_content {b : Box} {axis : Axis} (flexible : ¬0 < b.fixedSize.get axis) (children : List Box) :
    b.sized axis children = ((b.withStart axis (b.margins.start axis)).withContent axis
        (b.contentNeed axis children + b.padding.total axis)).withExtent axis
      (constrain (b.contentNeed axis children + b.padding.total axis)
        (b.minimumOver axis (b.contentNeed axis children + b.padding.total axis)) (b.maximum axis)) := by
  have bounds : ∀ content, ((b.withStart axis (b.margins.start axis)).withContent axis content).bounded axis content =
      constrain content (b.minimumOver axis content) (b.maximum axis) := by
    intro content
    simp only [bounded,effectiveMinimum,minimumOver,withContent,PerAxis.get_set]
    rfl
  rw [← bounds]
  exact if_neg flexible

theorem Matches.releaseBreak {axis axis' : Axis} {a b : Box} (matching : Matches axis axis' a b) (kept : Bool) :
    Matches axis axis' (a.releaseBreak axis kept) (b.releaseBreak axis' kept) := by
  obtain ⟨primary,wraps,free,columnWrap,alignment,constrainSize,preventCrush,anchor,fixed,forceBreak,floating,
    stacked,marginStart,marginFinish,paddingStart,paddingFinish,fixedSize,minimum,maximum,floatingPosition⟩ := matching
  unfold Box.releaseBreak
  split <;> split <;> constructor <;> assumption

theorem Matches.minimumOver {axis axis' : Axis} {a b : Box} (matching : Matches axis axis' a b) (content : Single) :
    a.minimumOver axis content = b.minimumOver axis' content := by
  simp only [Box.minimumOver,matching.preventCrush,matching.minimum]

end Box

namespace Transfer
variable {axis axis' : Axis} {R : Box → Box → Prop} (transfer : Transfer axis axis' R)
include transfer
variable {a b : Box} {xs ys : List Box}

theorem baseline (related : List.Forall₂ R xs ys) : Box.baseline axis xs = Box.baseline axis' ys := by
  have lifted := filter_related (p := fun b => !b.flags.inFlow) (q := fun b => !b.flags.inFlow) related
    fun one => by rw [(transfer.settings one).inFlow]
  simp only [Box.baseline,map_eq_of_related lifted transfer.reach]

theorem overlaidNeed (related : List.Forall₂ R xs ys) : Box.overlaidNeed axis xs = Box.overlaidNeed axis' ys := by
  simp only [Box.overlaidNeed,map_eq_of_related related transfer.reach]

theorem stackedNeed (related : List.Forall₂ R xs ys) : Box.stackedNeed axis xs = Box.stackedNeed axis' ys := by
  have flow := filter_related related fun one => (transfer.settings one).inFlow
  simp only [Box.stackedNeed,map_eq_of_related flow transfer.outerExtent,transfer.baseline related]

theorem wrappedStackedNeed (related : List.Forall₂ R xs ys) :
    Box.wrappedStackedNeed axis xs = Box.wrappedStackedNeed axis' ys := by
  have flow := filter_related related fun one => (transfer.settings one).inFlow
  have runs := splitBefore_related flow transfer.startsRun
  have lengths := map_eq_of_related (f := fun run => total (run.map (·.outerExtent axis)))
    (g := fun run => total (run.map (·.outerExtent axis'))) runs
    fun run => by rw [map_eq_of_related run transfer.outerExtent]
  simp only [Box.wrappedStackedNeed,lengths,transfer.baseline related]

theorem wrappedOverlaidNeed (related : List.Forall₂ R xs ys) :
    Box.wrappedOverlaidNeed axis xs = Box.wrappedOverlaidNeed axis' ys := by
  have standing := filter_related (p := fun b => !b.flags.floating) (q := fun b => !b.flags.floating) related
    fun one => by rw [(transfer.settings one).floating]
  have floating := filter_related related fun one => (transfer.settings one).floating
  have runs := splitBefore_related standing transfer.opensRun
  have widths := map_eq_of_related (f := fun run => largest (run.map (·.outerExtent axis)))
    (g := fun run => largest (run.map (·.outerExtent axis'))) runs
    fun run => by rw [map_eq_of_related run transfer.outerExtent]
  simp only [Box.wrappedOverlaidNeed,widths,map_eq_of_related floating transfer.reach]

theorem contentNeed (settings : Box.Matches axis axis' a b) (related : List.Forall₂ R xs ys) :
    a.contentNeed axis xs = b.contentNeed axis' ys := by
  simp only [Box.contentNeed,settings.primary,settings.wraps,transfer.stackedNeed related,
    transfer.wrappedStackedNeed related,transfer.overlaidNeed related,transfer.wrappedOverlaidNeed related]

end Transfer

-- The relation before the size pass, and the one its writes lead to. Break markers
-- are kept on some boxes only if the pass keeps those of wrapping columns.
structure Sizing (axis axis' : Axis) (keep : Bool) (Q R : Box → Box → Prop) : Prop where
  settings : ∀ {a b}, Q a b → Box.Matches axis axis' a b
  fixed : ∀ {a b kept}, Q a b → 0 < a.fixedSize.get axis → (kept = true → keep = true) → ∀ start extent,
    R (((a.releaseBreak axis kept).withStart axis start).withExtent axis extent)
      (((b.releaseBreak axis' kept).withStart axis' start).withExtent axis' extent)
  content : ∀ {a b kept}, Q a b → ¬0 < a.fixedSize.get axis → (kept = true → keep = true) →
    ∀ start content extent,
      R ((((a.releaseBreak axis kept).withStart axis start).withContent axis content).withExtent axis extent)
        ((((b.releaseBreak axis' kept).withStart axis' start).withContent axis' content).withExtent axis' extent)

namespace Sizing
variable {axis axis' : Axis} {keep kept : Bool} {Q R : Box → Box → Prop} {a b : Box} {xs ys : List Box}

theorem sizedBox (sizing : Sizing axis axis' keep Q R) (transfer : Transfer axis axis' R) (here : Q a b)
    (related : List.Forall₂ R xs ys) (allowed : kept = true → keep = true) :
    R ((a.releaseBreak axis kept).sized axis xs) ((b.releaseBreak axis' kept).sized axis' ys) := by
  have settings := (sizing.settings here).releaseBreak kept
  have unreleased : ∀ (c : Box) other, (c.releaseBreak other kept).fixedSize = c.fixedSize := by
    intro c other
    unfold Box.releaseBreak
    split <;> rfl
  by_cases fixed : 0 < a.fixedSize.get axis
  · have fixed' : 0 < b.fixedSize.get axis' := (sizing.settings here).fixedSize ▸ fixed
    rw [Box.sized_fixed (by rwa [unreleased]),Box.sized_fixed (by rwa [unreleased]),settings.marginStart,
      settings.fixedSize,settings.minimum,settings.maximum]
    exact sizing.fixed here fixed allowed _ _
  · have flexible' : ¬0 < b.fixedSize.get axis' := (sizing.settings here).fixedSize ▸ fixed
    rw [Box.sized_content (by rwa [unreleased]),Box.sized_content (by rwa [unreleased]),
      transfer.contentNeed settings related,settings.marginStart,settings.paddingTotal,
      settings.minimumOver,settings.maximum]
    exact sizing.content here fixed allowed _ _ _

theorem sized {t u : Tree Box} (sizing : Sizing axis axis' keep Q R) (transfer : Transfer axis axis' R)
    (related : Tree.Related Q t u) (allowed : kept = true → keep = true) :
    Tree.Related R (t.sized axis keep kept) (u.sized axis' keep kept) := by
  induction t generalizing u kept with
  | node value children ih =>
      cases related with
      | @node _ value' _ children' here below =>
          have columns : decide (value.arrangement = .columnWrap) = decide (value'.arrangement = .columnWrap) :=
            decide_eq_decide.mpr (sizing.settings here).columnWrap
          have onlyKept : (keep && decide (value'.arrangement = .columnWrap)) = true → keep = true := fun held =>
            (Bool.and_eq_true_iff.mp held).1
          rw [Tree.sized_node,Tree.sized_node,columns]
          generalize (keep && decide (value'.arrangement = .columnWrap)) = inner at onlyKept
          have sizedChildren : List.Forall₂ (Tree.Related R) (children.map (Tree.sized axis keep inner))
              (children'.map (Tree.sized axis' keep inner)) := by
            rw [List.forall₂_map_left_iff,List.forall₂_map_right_iff]
            exact ((List.forall₂_and_left _ _).mpr ⟨ih,below⟩).imp fun _ _ both => both.1 both.2 onlyKept
          exact .node (sizing.sizedBox transfer here (Tree.Related.values sizedChildren) allowed) sizedChildren

end Sizing
end BoxLayout
