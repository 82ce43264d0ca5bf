import BoxLayout.Key

namespace BoxLayout.Flags

-- Flag words as text. A table names single bits in order of position; bits
-- without a name are kept and shown together.

abbrev Names := List (String × Nat)

def bit (position : Nat) (value : Bool) : Word := if value then BitVec.twoPow 32 position else 0

theorem getLsbD_bit (position i : Nat) (value : Bool) (bounded : i < 32) :
    (bit position value).getLsbD i = (decide (i = position) && value) := by
  cases value <;> simp [bit,bounded,eq_comm]

def known (names : Names) : Word := names.foldl (fun word row => word ||| bit row.2 true) 0

def setNames (names : Names) (word : Word) : List String :=
  (names.filter fun row => word.getLsbD row.2).map (·.1)

def hexadecimal (word : Word) : String := String.ofList (Nat.toDigits 16 word.toNat)

def describe (label : String) (names : Names) (word : Word) : String :=
  let rest := word &&& ~~~known names
  let unnamed := if rest = 0 then [] else ["0x" ++ hexadecimal rest]
  let parts := setNames names word ++ unnamed
  label ++ "(" ++ (if parts = [] then "0x0" else " | ".intercalate parts) ++ ")"

theorem outside_known (word mask : Word) : word &&& ~~~mask &&& mask = 0 := by
  rw [BitVec.and_assoc,BitVec.and_comm (~~~mask)]
  simp

theorem getLsbD_outside (word mask : Word) (outside : word &&& mask = 0) (i : Nat)
    (named : mask.getLsbD i = true) : word.getLsbD i = false := by
  have bits := congrArg (·.getLsbD i) outside
  simpa [named] using bits

end BoxLayout.Flags
