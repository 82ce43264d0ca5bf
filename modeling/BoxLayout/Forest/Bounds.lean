import BoxLayout.Forest.Walk

namespace BoxLayout

-- How far a size may drift past its bounds before it counts as a violation.
def boundsTolerance : Single := .half

namespace Box

-- The bounds a size breaks. A maximum below the minimum is no bound.
def violatedBounds (b : Box) (axis : Axis) (size : Single) : Option (Single × Single) :=
  let minimum := b.effectiveMinimum axis
  let maximum := b.maximum axis
  let tooSmall := IsSet minimum ∧ size < minimum - boundsTolerance
  let tooLarge := IsSet maximum ∧ minimum ≤ maximum ∧ maximum + boundsTolerance < size
  if tooSmall ∨ tooLarge then some (minimum,maximum) else none

end Box

namespace Forest

-- A constraining parent may clip its children below their minimum.
def exempt (f : Forest) (key : Key) : Bool :=
  match (f.links key).parent with
  | some parent => (f.box parent).container.constrainSize
  | none => false

def violation? (f : Forest) (key : Key) : Option LayoutError :=
  if f.exempt key then none
  else Axis.all.findSome? fun axis =>
    let size := (f.box key).extent axis
    ((f.box key).violatedBounds axis size).map fun bounds =>
      .constraintViolation key axis size bounds.1 bounds.2

def verify (f : Forest) : Result Unit :=
  match (f.descendants .root).findSome? f.violation? with
  | some violation => .error violation
  | none => .ok ()

end Forest
end BoxLayout
