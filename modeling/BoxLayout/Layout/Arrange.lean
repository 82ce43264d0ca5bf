import BoxLayout.Layout.Placement

namespace BoxLayout.Tree

-- Placement from the root down, one axis at a time.

mutual
-- The tree with the given box in place of its root's: the box is clipped first,
-- then its children are placed and arranged in turn, floating ones at their own
-- offsets, all of them clipped to the content if the box constrains them.
def arrange (axis : Axis) (clip : Option Span) (b : Box) : Tree Box → Tree Box
  | .node _ children =>
      let b := b.clippedTo axis clip
      let span := b.contentSpan axis
      let placed := (b.placeChildren axis (children.map value)).map fun child =>
        if child.flags.floating then child.floatedIn axis span else child
      .node b (arrangeAll axis (if b.container.constrainSize then some span else none) placed children)
def arrangeAll (axis : Axis) (clip : Option Span) : List Box → List (Tree Box) → List (Tree Box)
  | b :: boxes,tree :: trees => arrange axis clip b tree :: arrangeAll axis clip boxes trees
  | _,_ => []
end

end BoxLayout.Tree
