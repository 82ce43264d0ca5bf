import BoxLayout.Forest.Walk
import BoxLayout.Layout.Update

namespace BoxLayout.Forest

-- Layout of a forest: a subtree is read off the links, laid out as a tree of
-- boxes, and written back.

def boxesAt (f : Forest) (outline : Tree Key) : Tree Box := outline.map f.box

def writeBack (f : Forest) (keys : List Key) (boxes : List Box) : Forest :=
  (keys.zip boxes).foldl (fun f row => f.editBox row.1 fun _ => row.2) f

def layOutAt (f : Forest) (around : Option Surround) (key : Key) : Forest :=
  let outline := f.outline key
  f.writeBack outline.preorder ((f.boxesAt outline).layOut around).preorder

def update (f : Forest) : Forest := f.layOutAt none .root

def surround (f : Forest) (key : Key) : Option Surround :=
  (f.links key).parent.map fun parent =>
    { span := .ofAxis (f.box parent).contentSpan, clips := (f.box parent).container.constrainSize }

-- One subtree only. Its root keeps its place unless it floats, and its break
-- marker, which belongs to the runs of its parent.
def updateSubtree (f : Forest) (key : Key) : Result Forest := do
  let _ ← f.validate key
  let marked := (f.box key).flags.isBreak
  return (f.layOutAt (f.surround key) key).editBox key (·.withBreak marked)

def updates (f : Forest) : Nat → Forest
  | 0 => f
  | count + 1 =>
      let next := f.update
      if next = f then f else next.updates count

end BoxLayout.Forest
