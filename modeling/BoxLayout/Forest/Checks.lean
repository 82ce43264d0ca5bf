import BoxLayout.Forest.Bounds
import BoxLayout.Forest.Update

namespace BoxLayout

-- The check a debugging build makes of every size it is about to give a child on a
-- run, listed in the order of an update. A check that fires stops the program.

structure BoundsCheck where
  box : Box
  axis : Axis
  size : Single
  deriving DecidableEq

def BoundsCheck.Fires (check : BoundsCheck) : Prop := (check.box.violatedBounds check.axis check.size).isSome = true

instance (check : BoundsCheck) : Decidable check.Fires := by unfold BoundsCheck.Fires; infer_instance

namespace Run

def checks (run : Run) (axis : Axis) (span : Span) (alignment : Alignment) (wrap last : Bool) : List BoundsCheck :=
  let shares := run.shares span.space alignment wrap last
  let flow := run.members.filter (·.flags.inFlow)
  flow.map fun b => ⟨b,axis,shares.final axis (shares.bonus axis flow) b⟩

def checksAll (axis : Axis) (span : Span) (alignment : Alignment) (wrap : Bool) : List Run → List BoundsCheck
  | [] => []
  | [run] => run.checks axis span alignment wrap true
  | run :: rest => run.checks axis span alignment wrap false ++ checksAll axis span alignment wrap rest

end Run

def Box.placementChecks (b : Box) (axis : Axis) (children : List Box) : List BoundsCheck :=
  let span := b.contentSpan axis
  let wrap := b.arrangement.wraps
  let children := if wrap then children.map (·.withBreak false) else children
  if b.arrangement.primaryAxis? = some axis then
    Run.checksAll axis span b.container.alignment wrap (Run.build axis span.space wrap .empty children)
  else []

namespace Tree

mutual
def arrangeChecks (axis : Axis) (clip : Option Span) (b : Box) : Tree Box → List BoundsCheck
  | .node _ children =>
      let b := b.clippedTo axis clip
      let span := b.contentSpan axis
      let placed := (b.placeChildren axis (children.map value)).map fun child =>
        if child.flags.floating then child.floatedIn axis span else child
      b.placementChecks axis (children.map value) ++
        arrangeChecksAll axis (if b.container.constrainSize then some span else none) placed children
def arrangeChecksAll (axis : Axis) (clip : Option Span) : List Box → List (Tree Box) → List BoundsCheck
  | b :: boxes,tree :: trees => arrangeChecks axis clip b tree ++ arrangeChecksAll axis clip boxes trees
  | _,_ => []
end

def passAxisChecks (keepColumns : Bool) (axis : Axis) (tree : Tree Box) : List BoundsCheck :=
  let tree := tree.sized axis keepColumns false
  tree.arrangeChecks axis none tree.value

def passChecks (keepColumns : Bool) (tree : Tree Box) : List BoundsCheck :=
  tree.passAxisChecks keepColumns .x ++ (tree.passAxis keepColumns none .x).passAxisChecks keepColumns .y

def layOutChecks (tree : Tree Box) : List BoundsCheck :=
  let first := tree.pass false none
  tree.passChecks false ++ if first.columnBroke then first.passChecks true else []

end Tree

def Forest.updateChecks (f : Forest) : List BoundsCheck := (f.boxesAt (f.outline .root)).layOutChecks

end BoxLayout
