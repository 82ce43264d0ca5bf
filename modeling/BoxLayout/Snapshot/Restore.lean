import BoxLayout.Snapshot.Basic
import BoxLayout.Forest.Insert
import BoxLayout.Forest.Settings

namespace BoxLayout

-- A forest rebuilt from a snapshot. Keys are 0 .. n - 1, each once, and every
-- rule of building a forest by hand applies.

namespace Node

def handle (node : Node) : Key := .ofWord node.key

def settle (f : Forest) (node : Node) : Result Forest := do
  let key := node.handle
  let container := ContainerFlags.ofWord node.containerFlags
  if ¬container.Defined then throw (.snapshot (.unknownContainerFlags key))
  let f ← if node.containerFlags = 0 then pure f else f.setContainerFlags key container
  let flags := LayoutFlags.ofWord node.layoutFlags
  if ¬flags.Defined then throw (.snapshot (.unknownLayoutFlags key))
  let f ← f.setLayoutFlags key flags
  let f ← f.setSize key node.fixedSize
  let f ← f.setMinimumSize key node.minimumSize
  let f ← f.setMaximumSize key node.maximumSize
  let f ← f.setMargins key node.margins
  let f ← f.setPadding key node.padding
  let f ← f.setFloatingPosition key node.floatingPosition
  let f ← f.setTag key node.tag
  f.setRect key node.rect

def attach (f : Forest) (node : Node) : Result Forest :=
  match (Key.ofWord node.parent).valid? with
  | some parent => f.insertAtEnd parent node.handle
  | none => .ok f

end Node

namespace Snapshot

-- The first key that is reserved, out of range or has come before.
def strayKey? (count : Nat) (seen : List Key) : List Node → Option Key
  | [] => none
  | node :: rest =>
      if node.handle = .reserved ∨ count ≤ node.handle.index ∨ node.handle ∈ seen then some node.handle
      else strayKey? count (node.handle :: seen) rest

def blank : Nat → Forest
  | 0 => .new
  | more + 1 => (blank more).create.2

def restore (s : Snapshot) : Result Forest := do
  if s.version ≠ snapshotVersion then throw (.snapshot (.unsupportedVersion s.version))
  if let some key := strayKey? s.nodes.length [] s.nodes then throw (.snapshot (.unexpectedKey key))
  if s.nodes = [] then throw (.snapshot .noRoot)
  let f ← s.nodes.foldlM Node.settle (blank (s.nodes.length - 1))
  s.nodes.foldlM Node.attach f

end Snapshot
end BoxLayout
