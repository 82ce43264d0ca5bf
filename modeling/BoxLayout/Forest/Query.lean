import BoxLayout.Forest.Walk

namespace BoxLayout

namespace Box

-- Margin box for measuring: a fixed size counts as set, the container may have clipped it.
def measuredRect (b : Box) : Rect :=
  let size : PerAxis Single := .ofAxis fun axis =>
    if 0 < b.fixedSize.get axis then b.fixedSize.get axis else b.extent axis
  ({ b.rect with size := size } : Rect).outset b.margins

end Box

namespace Tree

mutual
-- The control drawn last among those under the point: a subtree is entered only
-- where its root is hit, and later siblings lie on top.
def hit (point : PerAxis Single) : Tree (Key × Rect) → Option Key
  | .node (key,rect) children =>
      if rect.Contains point then some ((hitAny point children).getD key) else none
def hitAny (point : PerAxis Single) : List (Tree (Key × Rect)) → Option Key
  | [] => none
  | tree :: rest => (hitAny point rest).or (hit point tree)
end

end Tree

namespace Forest

def measureContent (f : Forest) (key : Key) : Result (Option Rect) := do
  let _ ← f.validate key
  match (f.children key).map fun child => (f.box child).measuredRect with
  | [] => return none
  | first :: rest => return some (rest.foldl Rect.union first)

def hitTestFrom (f : Forest) (key : Key) (point : PerAxis Single) : Result (Option Key) := do
  let _ ← f.validate key
  return ((f.outline key).map fun key => (key,(f.box key).rect)).hit point

def hitTest (f : Forest) (point : PerAxis Single) : Option Key :=
  ((f.outline .root).map fun key => (key,(f.box key).rect)).hit point

def rect (f : Forest) (key : Key) : Result Rect := do return (← f.find key).box.rect
def contentRect (f : Forest) (key : Key) : Result Rect := do return (← f.find key).box.contentRect

end Forest
end BoxLayout
