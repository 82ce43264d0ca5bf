import BoxLayout.Layout.Arrange

namespace BoxLayout

-- Reading a box after a write to it, axis by axis, and laying out a tree node by node.

namespace PerAxis
variable {α : Type} {p q : PerAxis α} {axis other : Axis} {value : α}

theorem get_set_apply : (p.set axis value).get other = if other = axis then value else p.get other := by
  cases axis <;> cases other <;> rfl

theorem eq_of_get (same : ∀ axis, p.get axis = q.get axis) : p = q := by
  cases p
  cases q
  cases same .x
  cases same .y
  rfl

end PerAxis

namespace Box
variable {b : Box} {axis other : Axis} {value : Single} {mark : Bool}

@[simp] theorem start_withStart : (b.withStart axis value).start other = if other = axis then value else b.start other :=
  PerAxis.get_set_apply

@[simp] theorem start_withExtent : (b.withExtent axis value).start other = b.start other := rfl
@[simp] theorem start_withContent : (b.withContent axis value).start other = b.start other := rfl
@[simp] theorem start_withBreak : (b.withBreak mark).start other = b.start other := rfl

@[simp] theorem extent_withExtent : (b.withExtent axis value).extent other = if other = axis then value else b.extent other :=
  PerAxis.get_set_apply

@[simp] theorem extent_withStart : (b.withStart axis value).extent other = b.extent other := rfl
@[simp] theorem extent_withContent : (b.withContent axis value).extent other = b.extent other := rfl
@[simp] theorem extent_withBreak : (b.withBreak mark).extent other = b.extent other := rfl

@[simp] theorem content_withContent : (b.withContent axis value).contentSize.get other =
    if other = axis then value else b.contentSize.get other := PerAxis.get_set_apply

@[simp] theorem content_withStart : (b.withStart axis value).contentSize = b.contentSize := rfl
@[simp] theorem content_withExtent : (b.withExtent axis value).contentSize = b.contentSize := rfl
@[simp] theorem content_withBreak : (b.withBreak mark).contentSize = b.contentSize := rfl

theorem effectiveMinimum_withContent (apart : other ≠ axis) :
    (b.withContent axis value).effectiveMinimum other = b.effectiveMinimum other := by
  unfold effectiveMinimum
  rw [content_withContent,if_neg apart]
  rfl

def unplaced (b : Box) : Box := { b with rect := .zero }

theorem unplaced_overlaidIn (b : Box) (axis : Axis) (span : Span) : (b.overlaidIn axis span).unplaced = b.unplaced := by
  unfold overlaidIn
  dsimp only
  split <;> rfl

theorem unplaced_floatedIn (b : Box) (axis : Axis) (span : Span) : (b.floatedIn axis span).unplaced = b.unplaced := by
  unfold floatedIn
  dsimp only
  split <;> rfl

theorem unplaced_clippedTo (b : Box) (axis : Axis) (clip : Option Span) : (b.clippedTo axis clip).unplaced = b.unplaced := by
  unfold clippedTo
  cases clip with
  | none => rfl
  | some span =>
      dsimp only
      split <;> rfl

theorem start_clippedTo (b : Box) (axis : Axis) (clip : Option Span) : (b.clippedTo axis clip).start axis = b.start axis := by
  unfold clippedTo
  cases clip with
  | none => rfl
  | some span =>
      dsimp only
      split <;> rfl

def settled (b : Box) (axis : Axis) (children : List Box) : List Box :=
  (b.placeChildren axis children).map fun child =>
    if child.flags.floating then child.floatedIn axis (b.contentSpan axis) else child

end Box

namespace Tree
variable {axis : Axis} {keep kept : Bool} {clip : Option Span} {b value : Box} {children : List (Tree Box)}

theorem sized_node : (node b children).sized axis keep kept =
    let children := children.map (sized axis keep (keep && decide (b.arrangement = .columnWrap)))
    .node ((b.releaseBreak axis kept).sized axis (children.map Tree.value)) children := by
  have all : ∀ kept (trees : List (Tree Box)), sizedAll axis keep kept trees = trees.map (sized axis keep kept) := by
    intro kept trees
    induction trees with
    | nil => rfl
    | cons tree rest ih => simp only [sizedAll,ih,List.map_cons]
  rw [sized,all]

theorem arrange_node : (node value children).arrange axis clip b =
    let b := b.clippedTo axis clip
    .node b (arrangeAll axis (if b.container.constrainSize then some (b.contentSpan axis) else none)
      (b.settled axis (children.map Tree.value)) children) := rfl

end Tree
end BoxLayout
