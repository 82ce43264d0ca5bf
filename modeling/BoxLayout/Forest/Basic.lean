import BoxLayout.Control
import BoxLayout.Error

namespace BoxLayout

-- Controls in the order of creation, linked to parents, children and siblings.
-- The first one is the root and always exists; controls are never removed one by
-- one, only all together.

structure Forest where
  controls : Array Control
  deriving DecidableEq

abbrev Result (α : Type) := Except LayoutError α

namespace Forest

def new : Forest := ⟨#[.root]⟩

instance : Inhabited Forest := ⟨new⟩

def size (f : Forest) : Nat := f.controls.size

def Contains (f : Forest) (key : Key) : Prop := key.index < f.size

instance (f : Forest) (key : Key) : Decidable (f.Contains key) := inferInstanceAs (Decidable (_ < _))

def keys (f : Forest) : List Key := (List.range f.size).map Key.mk

def create (f : Forest) : Key × Forest :=
  let key : Key := ⟨f.size⟩
  (key,⟨f.controls.push (.new key)⟩)

def find (f : Forest) (key : Key) : Result Control :=
  match f.controls[key.index]? with
  | some control => .ok control
  | none => .error (.invalidKey key)

def validate (f : Forest) (key : Key) : Result Key :=
  if f.Contains key then .ok key else .error (.invalidKey key)

def links (f : Forest) (key : Key) : Links :=
  match f.controls[key.index]? with
  | some control => control.links
  | none => .none

def box (f : Forest) (key : Key) : Box :=
  match f.controls[key.index]? with
  | some control => control.box
  | none => .new

def tag (f : Forest) (key : Key) : Word :=
  match f.controls[key.index]? with
  | some control => control.tag
  | none => 0

def edit (f : Forest) (key : Key) (change : Control → Control) : Forest :=
  ⟨f.controls.modify key.index change⟩

def editLinks (f : Forest) (key : Key) (change : Links → Links) : Forest :=
  f.edit key fun control => { control with links := change control.links }

def editBox (f : Forest) (key : Key) (change : Box → Box) : Forest :=
  f.edit key fun control => { control with box := change control.box }

def modifyBox (f : Forest) (key : Key) (change : Box → Box) : Result Forest := do
  let _ ← f.validate key
  return f.editBox key change

theorem size_edit (f : Forest) (key : Key) (change : Control → Control) : (f.edit key change).size = f.size :=
  Array.size_modify

theorem size_create (f : Forest) : f.create.2.size = f.size + 1 := Array.size_push ..

end Forest
end BoxLayout
