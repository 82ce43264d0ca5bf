import BoxLayout.Control
import BoxLayout.Layout.Split

namespace BoxLayout

-- Runs of children along the primary axis of a stacking container. Out-of-flow
-- children stay where they are in the list but count for nothing.

structure Run where
  members : List Box
  used : Single
  fillers : Nat
  squeezed : Nat
  total : Nat
  deriving DecidableEq

namespace Run

def empty : Run := ⟨[],0,0,0,0⟩

def extended (run : Run) (axis : Axis) (b : Box) : Single :=
  let withMargins := run.used + b.margins.total axis
  if b.flags.fills axis then withMargins else withMargins + b.extent axis

def accept (run : Run) (axis : Axis) (b : Box) : Run where
  members := run.members ++ [b]
  used := run.extended axis b
  fillers := if b.flags.fills axis then run.fillers + 1 else run.fillers
  squeezed := if !b.flags.fills axis && !b.flags.fixed.get axis then run.squeezed + 1 else run.squeezed
  total := run.total + 1

def pass (run : Run) (b : Box) : Run := { run with members := run.members ++ [b] }

def tolerance : Single := .tenth

def Ends (run : Run) (axis : Axis) (space : Single) (b : Box) : Prop :=
  0 < run.total ∧ (space + tolerance < run.extended axis b ∨ b.flags.forceBreak = true)

instance (run : Run) (axis : Axis) (space : Single) (b : Box) : Decidable (run.Ends axis space b) := by
  unfold Ends; infer_instance

def build (axis : Axis) (space : Single) (wrap : Bool) (run : Run) : List Box → List Run
  | [] => [run]
  | b :: rest =>
      if b.flags.inFlow = false then build axis space wrap (run.pass b) rest
      else if wrap = true ∧ run.Ends axis space b then
        run :: build axis space wrap (empty.accept axis (b.withBreak true)) rest
      else build axis space wrap (run.accept axis b) rest

end Run
end BoxLayout
