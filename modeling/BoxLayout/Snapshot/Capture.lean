import BoxLayout.Snapshot.Basic
import BoxLayout.Forest.Walk

namespace BoxLayout.Forest

def capturedNode (f : Forest) (key : Key) : Node :=
  let b := f.box key
  { key := key.toWord
    parent := (Key.ofLink (f.links key).parent).toWord
    containerFlags := b.container.toWord
    layoutFlags := b.flags.external.toWord
    margins := b.margins
    padding := b.padding
    fixedSize := b.fixedSize
    minimumSize := b.minimumSize
    maximumSize := b.maximumSize
    floatingPosition := b.floatingPosition
    tag := f.tag key
    rect := b.rect }

-- Attached controls depth first, so that their order restores the sibling order;
-- then the rest in order of creation.
def captureOrder (f : Forest) : List Key :=
  let attached := f.descendants .root
  attached ++ f.keys.filter fun key => !attached.contains key

def capture (f : Forest) : Snapshot :=
  ⟨snapshotVersion,f.captureOrder.map f.capturedNode⟩

end BoxLayout.Forest
