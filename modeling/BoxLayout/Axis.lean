namespace BoxLayout

-- The two axes, and values that come one to an axis.

inductive Axis where
  | x
  | y
  deriving DecidableEq

namespace Axis

def all : List Axis := [.x,.y]

def other : Axis → Axis
  | .x => .y
  | .y => .x

def index : Axis → Nat
  | .x => 0
  | .y => 1

def name : Axis → String
  | .x => "X"
  | .y => "Y"

end Axis

structure PerAxis (α : Type) where
  x : α
  y : α
  deriving DecidableEq

namespace PerAxis
variable {α β : Type}

def get (pair : PerAxis α) : Axis → α
  | .x => pair.x
  | .y => pair.y

def set (pair : PerAxis α) (axis : Axis) (value : α) : PerAxis α :=
  match axis with
  | .x => { pair with x := value }
  | .y => { pair with y := value }

def both (value : α) : PerAxis α := ⟨value,value⟩
def ofAxis (value : Axis → α) : PerAxis α := ⟨value .x,value .y⟩
def map (change : α → β) (pair : PerAxis α) : PerAxis β := ⟨change pair.x,change pair.y⟩
def swap (pair : PerAxis α) : PerAxis α := ⟨pair.y,pair.x⟩
def toList (pair : PerAxis α) : List α := [pair.x,pair.y]

theorem get_set (pair : PerAxis α) (axis : Axis) (value : α) : (pair.set axis value).get axis = value := by
  cases axis <;> rfl

theorem get_ofAxis (value : Axis → α) (axis : Axis) : (ofAxis value).get axis = value axis := by
  cases axis <;> rfl

end PerAxis
end BoxLayout
