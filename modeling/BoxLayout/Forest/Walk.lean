import BoxLayout.Forest.Basic
import BoxLayout.Tree

namespace BoxLayout.Forest

-- Reading sibling lists and subtrees off the links. A sibling list or a path
-- down from the root never meets a control twice, so the number of controls is
-- fuel enough; below a cycle of unattached controls it cuts the walk short.

def siblingsFrom (f : Forest) : Nat → Option Key → List Key
  | 0,_ => []
  | _,none => []
  | fuel + 1,some key => key :: f.siblingsFrom fuel (f.links key).nextSibling

def siblingsBack (f : Forest) : Nat → Option Key → List Key
  | 0,_ => []
  | _,none => []
  | fuel + 1,some key => key :: f.siblingsBack fuel (f.links key).previousSibling

def children (f : Forest) (key : Key) : List Key := f.siblingsFrom f.size (f.links key).firstChild

def childrenBack (f : Forest) (key : Key) : List Key := f.siblingsBack f.size (f.links key).lastChild

def walk (f : Forest) : Nat → List Key → List Key
  | 0,_ => []
  | _,[] => []
  | fuel + 1,key :: stack => key :: f.walk fuel ((f.childrenBack key).foldl (fun rest child => child :: rest) stack)

def descendants (f : Forest) (key : Key) : List Key :=
  if f.Contains key then f.walk f.size [key] else []

def outlineTo (f : Forest) : Nat → Key → Tree Key
  | 0,key => .node key []
  | fuel + 1,key => .node key ((f.children key).map (f.outlineTo fuel))

def outline (f : Forest) (key : Key) : Tree Key := f.outlineTo f.size key

end BoxLayout.Forest
