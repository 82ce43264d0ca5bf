import BoxLayout.Layout.Arrange

namespace BoxLayout

-- Whole layouts: size and arrange the first axis, then the second.

structure Surround where
  span : PerAxis Span
  clips : Bool
  deriving DecidableEq

namespace Tree

def rooted (around : Option Surround) (axis : Axis) (before : Single) (b : Box) : Box :=
  match around with
  | none => b
  | some parent =>
      if b.flags.floating then b.floatedIn axis (parent.span.get axis) else b.withStart axis before

def passAxis (keepColumns : Bool) (around : Option Surround) (axis : Axis) (tree : Tree Box) : Tree Box :=
  let before := tree.value.start axis
  let tree := tree.sized axis keepColumns false
  let clip := around.bind fun parent => if parent.clips then some (parent.span.get axis) else none
  tree.arrange axis clip (rooted around axis before tree.value)

def pass (keepColumns : Bool) (around : Option Surround) (tree : Tree Box) : Tree Box :=
  Axis.all.foldl (fun tree axis => tree.passAxis keepColumns around axis) tree

mutual
def columnBroke : Tree Box → Bool
  | .node b children =>
      (b.arrangement = .columnWrap && children.any (·.value.flags.isBreak)) || columnBrokeAny children
def columnBrokeAny : List (Tree Box) → Bool
  | [] => false
  | tree :: rest => columnBroke tree || columnBrokeAny rest
end

-- Wrapping columns learn their runs on the second axis, too late for their
-- width. When one broke, everything is done once more with those runs kept.
def layOut (around : Option Surround) (tree : Tree Box) : Tree Box :=
  let first := tree.pass false around
  if first.columnBroke then first.pass true around else first

end Tree
end BoxLayout
