namespace BoxLayout

-- Handles of controls: positions in the order of creation. They stay good until
-- everything is cleared, after which the same numbers are handed out again.

abbrev Word := BitVec 32

def countText (n : Nat) : String := String.ofList (Nat.toDigits 10 n)

def wordText (word : Word) : String := countText word.toNat

structure Key where
  index : Nat
  deriving DecidableEq

namespace Key

def root : Key := ⟨0⟩

-- The last word names no control; a written link holds it for "none".
def reserved : Key := ⟨4294967295⟩

instance : Inhabited Key := ⟨reserved⟩

def valid? (key : Key) : Option Key := if key = reserved then none else some key

def ofWord (word : Word) : Key := ⟨word.toNat⟩
def toWord (key : Key) : Word := BitVec.ofNat 32 key.index

def ofLink (link : Option Key) : Key := link.getD reserved

def text (key : Key) : String :=
  if key = reserved then "#invalid" else "#" ++ countText key.index

def debugText (key : Key) : String :=
  "ControlKey(" ++ countText key.index ++ ")"

end Key
end BoxLayout
