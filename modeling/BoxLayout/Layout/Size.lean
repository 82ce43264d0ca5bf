import BoxLayout.Control
import BoxLayout.Tree
import BoxLayout.Layout.Split

namespace BoxLayout

-- Sizes from the leaves up, one axis at a time. Afterwards every box has its
-- extent on the axis and stands at its leading margin.

namespace Box

def baseline (axis : Axis) (children : List Box) : Single :=
  largest ((children.filter fun b => !b.flags.inFlow).map (·.reach axis))

def overlaidNeed (axis : Axis) (children : List Box) : Single :=
  largest (children.map (·.reach axis))

def stackedNeed (axis : Axis) (children : List Box) : Single :=
  max (total ((children.filter (·.flags.inFlow)).map (·.outerExtent axis))) (baseline axis children)

def wrappedStackedNeed (axis : Axis) (children : List Box) : Single :=
  let runs := splitBefore (·.flags.startsRun) (children.filter (·.flags.inFlow))
  max (largest (runs.map fun run => total (run.map (·.outerExtent axis)))) (baseline axis children)

def opensRun (b : Box) : Bool := b.flags.inFlow && b.flags.startsRun

def wrappedOverlaidNeed (axis : Axis) (children : List Box) : Single :=
  let runs := splitBefore opensRun (children.filter fun b => !b.flags.floating)
  max (total (runs.map fun run => largest (run.map (·.outerExtent axis))))
    (largest ((children.filter (·.flags.floating)).map (·.reach axis)))

def contentNeed (b : Box) (axis : Axis) (children : List Box) : Single :=
  if b.arrangement.primaryAxis? = some axis then
    if b.arrangement.wraps then wrappedStackedNeed axis children else stackedNeed axis children
  else if b.arrangement.wraps then wrappedOverlaidNeed axis children
  else overlaidNeed axis children

-- A fixed size is only brought within its minimum and maximum, and the content
-- size of such a control stays what it was.
def sized (b : Box) (axis : Axis) (children : List Box) : Box :=
  let b := b.withStart axis (b.margins.start axis)
  let fixed := b.fixedSize.get axis
  if 0 < fixed then b.withExtent axis (constrain fixed (b.minimum axis) (b.maximum axis))
  else
    let content := b.contentNeed axis children + b.padding.total axis
    let b := b.withContent axis content
    b.withExtent axis (b.bounded axis content)

-- Break markers tell of the runs of an earlier layout; sizing the first axis
-- drops them unless they are kept.
def releaseBreak (b : Box) (axis : Axis) (kept : Bool) : Box :=
  if axis = .x ∧ kept = false then b.withBreak false else b

end Box

namespace Tree

mutual
def sized (axis : Axis) (keepColumns kept : Bool) : Tree Box → Tree Box
  | .node b children =>
      let children := sizedAll axis keepColumns (keepColumns && b.arrangement = .columnWrap) children
      .node ((b.releaseBreak axis kept).sized axis (children.map value)) children
def sizedAll (axis : Axis) (keepColumns kept : Bool) : List (Tree Box) → List (Tree Box)
  | [] => []
  | tree :: rest => sized axis keepColumns kept tree :: sizedAll axis keepColumns kept rest
end

end Tree
end BoxLayout
