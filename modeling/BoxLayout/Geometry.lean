import BoxLayout.Number.Single
import BoxLayout.Axis

namespace BoxLayout

-- Spacings, rectangles and their slices along one axis.

-- Any negative size, minimum or maximum is unset.
def unset : Single := -1

def IsSet (value : Single) : Prop := 0 ≤ value

instance (value : Single) : Decidable (IsSet value) := inferInstanceAs (Decidable (0 ≤ value))

-- The maximum is applied first, so a minimum above it wins.
def constrain (value minimum maximum : Single) : Single :=
  let capped := if IsSet maximum then min value maximum else value
  if IsSet minimum then max capped minimum else capped

structure Spacing where
  left : Single
  top : Single
  right : Single
  bottom : Single
  deriving DecidableEq

namespace Spacing

def uniform (value : Single) : Spacing := ⟨value,value,value,value⟩
def symmetric (horizontal vertical : Single) : Spacing := ⟨horizontal,vertical,horizontal,vertical⟩
def zero : Spacing := uniform 0

instance : Inhabited Spacing := ⟨zero⟩

def start (s : Spacing) : Axis → Single
  | .x => s.left
  | .y => s.top

def finish (s : Spacing) : Axis → Single
  | .x => s.right
  | .y => s.bottom

def total (s : Spacing) (axis : Axis) : Single := s.start axis + s.finish axis

def swap (s : Spacing) : Spacing := ⟨s.top,s.left,s.bottom,s.right⟩

def sides (s : Spacing) : List Single := [s.left,s.top,s.right,s.bottom]

def Same (s t : Spacing) : Prop :=
  s.left.Same t.left ∧ s.top.Same t.top ∧ s.right.Same t.right ∧ s.bottom.Same t.bottom

instance (s t : Spacing) : Decidable (Same s t) := by unfold Same; infer_instance

end Spacing

structure Span where
  offset : Single
  space : Single
  deriving DecidableEq

def Span.finish (span : Span) : Single := span.offset + span.space

structure Rect where
  position : PerAxis Single
  size : PerAxis Single
  deriving DecidableEq

namespace Rect

def ofNumbers (x y width height : Single) : Rect := ⟨⟨x,y⟩,⟨width,height⟩⟩
def zero : Rect := ⟨.both 0,.both 0⟩

instance : Inhabited Rect := ⟨zero⟩

def start (r : Rect) (axis : Axis) : Single := r.position.get axis
def extent (r : Rect) (axis : Axis) : Single := r.size.get axis
def finish (r : Rect) (axis : Axis) : Single := r.start axis + r.extent axis

def withStart (r : Rect) (axis : Axis) (value : Single) : Rect :=
  { r with position := r.position.set axis value }

def withExtent (r : Rect) (axis : Axis) (value : Single) : Rect :=
  { r with size := r.size.set axis value }

def swap (r : Rect) : Rect := ⟨r.position.swap,r.size.swap⟩

def numbers (r : Rect) : List Single := r.position.toList ++ r.size.toList

def Contains (r : Rect) (point : PerAxis Single) : Prop :=
  ∀ axis, r.start axis ≤ point.get axis ∧ point.get axis ≤ r.finish axis

def ofEdges (start finish : Axis → Single) : Rect :=
  ⟨.ofAxis start,.ofAxis fun axis => finish axis - start axis⟩

def union (r s : Rect) : Rect :=
  ofEdges (fun axis => min (r.start axis) (s.start axis)) (fun axis => max (r.finish axis) (s.finish axis))

def intersect (r s : Rect) : Option Rect :=
  let start := fun axis => max (r.start axis) (s.start axis)
  let finish := fun axis => min (r.finish axis) (s.finish axis)
  if start .x < finish .x ∧ start .y < finish .y then some (ofEdges start finish) else none

def inset (r : Rect) (spacing : Spacing) : Rect :=
  ⟨.ofAxis fun axis => r.start axis + spacing.start axis,
    .ofAxis fun axis => (r.extent axis - spacing.total axis).positivePart⟩

def outset (r : Rect) (spacing : Spacing) : Rect :=
  ⟨.ofAxis fun axis => r.start axis - spacing.start axis,
    .ofAxis fun axis => r.extent axis + spacing.total axis⟩

def span (r : Rect) (axis : Axis) : Span := ⟨r.start axis,r.extent axis⟩

def Same (r s : Rect) : Prop :=
  (r.position.x.Same s.position.x ∧ r.position.y.Same s.position.y) ∧
    r.size.x.Same s.size.x ∧ r.size.y.Same s.size.y

instance (r s : Rect) : Decidable (Same r s) := by unfold Same; infer_instance

theorem contains_iff (r : Rect) (point : PerAxis Single) :
    r.Contains point ↔ (r.start .x ≤ point.x ∧ point.x ≤ r.finish .x) ∧
      r.start .y ≤ point.y ∧ point.y ≤ r.finish .y := by
  constructor
  · intro inside
    exact ⟨inside .x,inside .y⟩
  · rintro ⟨across,down⟩ axis
    cases axis with
    | x => exact across
    | y => exact down

instance (r : Rect) (point : PerAxis Single) : Decidable (r.Contains point) :=
  decidable_of_iff _ (contains_iff r point).symm

end Rect
end BoxLayout
