import BoxLayout.Forest.Basic

namespace BoxLayout.Forest

-- Splicing a control without parent into a sibling list. Nothing is ever taken out.

def checkInsertable (f : Forest) (child : Key) : Result Unit := do
  let control ← f.find child
  if child = .root then throw .rootInsertion
  if control.links.parent.isSome then throw (.alreadyParented child)

def checkAnchor (f : Forest) (anchor child : Key) : Result Key := do
  let _ ← f.validate anchor
  f.checkInsertable child
  if anchor = child then throw (.selfInsertion child)
  match (f.links anchor).parent with
  | some parent => return parent
  | none => throw (.noParent anchor)

def splice (f : Forest) (parent : Key) (previous next : Option Key) (child : Key) : Forest :=
  let f := f.editLinks child fun links =>
    { links with parent := some parent, previousSibling := previous, nextSibling := next }
  let f := match previous with
    | some key => f.editLinks key ({ · with nextSibling := some child })
    | none => f.editLinks parent ({ · with firstChild := some child })
  match next with
  | some key => f.editLinks key ({ · with previousSibling := some child })
  | none => f.editLinks parent ({ · with lastChild := some child })

def insertAfter (f : Forest) (previous child : Key) : Result Forest := do
  let parent ← f.checkAnchor previous child
  return f.splice parent (some previous) (f.links previous).nextSibling child

def insertBefore (f : Forest) (next child : Key) : Result Forest := do
  let parent ← f.checkAnchor next child
  return f.splice parent (f.links next).previousSibling (some next) child

def insertAtEnd (f : Forest) (parent child : Key) : Result Forest := do
  let _ ← f.validate parent
  f.checkInsertable child
  if parent = child then throw (.selfInsertion child)
  match (f.links parent).lastChild with
  | some last => f.insertAfter last child
  | none => return f.splice parent none none child

def insertAtStart (f : Forest) (parent child : Key) : Result Forest := do
  let _ ← f.validate parent
  match (f.links parent).firstChild with
  | some first => f.insertBefore first child
  | none => f.insertAtEnd parent child

def createChild (f : Forest) (parent : Key) : Result (Key × Forest) := do
  let _ ← f.validate parent
  let (key,f) := f.create
  let f ← f.insertAtEnd parent key
  return (key,f)

end BoxLayout.Forest
