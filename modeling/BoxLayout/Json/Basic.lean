namespace BoxLayout

-- JSON values as they are written. Strings and numbers keep their spelling, so
-- that a value nobody reads may hold what has no meaning, such as half a
-- surrogate pair or a number past every range; reading a spelling is a step of
-- its own.
inductive Json where
  | null
  | bool (value : Bool)
  | number (spelling : List Char)
  | string (spelling : List Char)
  | array (items : List Json)
  | object (members : List (List Char × Json))

namespace Json

instance : Inhabited Json := ⟨null⟩

def blank (c : Char) : Bool := c = ' ' || c = '\n' || c = '\t' || c = '\r'

def hexDigit? (c : Char) : Option Nat :=
  if c.isDigit then some (c.toNat - '0'.toNat)
  else if 'a' ≤ c ∧ c ≤ 'f' then some (c.toNat - 'a'.toNat + 10)
  else if 'A' ≤ c ∧ c ≤ 'F' then some (c.toNat - 'A'.toNat + 10)
  else none

end Json
end BoxLayout
