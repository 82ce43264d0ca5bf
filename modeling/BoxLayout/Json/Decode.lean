import BoxLayout.Json.Basic
import BoxLayout.Key
import BoxLayout.Number.Scaling

namespace BoxLayout.Json

-- Reading spellings, and records out of objects or arrays.

inductive Piece where
  | char (c : Char)
  | unit (code : Nat)
  deriving DecidableEq

inductive Reading where
  | plain
  | escape
  | hex (left value : Nat)
  deriving DecidableEq

def escaped? (c : Char) : Option Char :=
  if c = 'b' then some '\x08'
  else if c = 'f' then some '\x0c'
  else if c = 'n' then some '\n'
  else if c = 'r' then some '\r'
  else if c = 't' then some '\t'
  else if c = '"' ∨ c = '\\' ∨ c = '/' then some c
  else none

def pieces? : Reading → List Char → Option (List Piece)
  | .plain,[] => some []
  | _,[] => none
  | .plain,c :: rest =>
      if c = '\\' then pieces? .escape rest else (pieces? .plain rest).map (.char c :: ·)
  | .escape,c :: rest =>
      if c = 'u' then pieces? (.hex 4 0) rest
      else match escaped? c with
        | some c => (pieces? .plain rest).map (.char c :: ·)
        | none => none
  | .hex left value,c :: rest =>
      match hexDigit? c with
      | none => none
      | some digit =>
          let value := 16 * value + digit
          if left ≤ 1 then (pieces? .plain rest).map (.unit value :: ·)
          else pieces? (.hex (left - 1) value) rest

def leading (code : Nat) : Bool := 0xD800 ≤ code && code < 0xDC00
def trailing (code : Nat) : Bool := 0xDC00 ≤ code && code < 0xE000

-- Escapes past the first plane come as a leading and a trailing half, one right
-- after the other; a half on its own is no text.
def join? : Option Nat → List Piece → Option (List Char)
  | none,[] => some []
  | some _,[] => none
  | none,.char c :: rest => (join? none rest).map (c :: ·)
  | some _,.char _ :: _ => none
  | none,.unit code :: rest =>
      if leading code then join? (some code) rest
      else if trailing code then none
      else (join? none rest).map (Char.ofNat code :: ·)
  | some first,.unit code :: rest =>
      if trailing code then
        (join? none rest).map
          (Char.ofNat (0x10000 + (first - 0xD800) * 0x400 + (code - 0xDC00)) :: ·)
      else none

def text? (spelling : List Char) : Option (List Char) := (pieces? .plain spelling).bind (join? none)

def word? : Json → Option Word
  | .number spelling =>
      match Numeral.read? spelling with
      | some numeral =>
          let value := Decimal.ofDigits numeral.whole
          if numeral.integral = true ∧ numeral.negative = false ∧ value < 2 ^ 32 then
            some (BitVec.ofNat 32 value)
          else none
      | none => none
  | _ => none

def single? : Json → Option Single
  | .number spelling => (Numeral.read? spelling).bind Numeral.single?
  | _ => none

def unique? (members : List (List Char × Json)) (name : String) : Option (Option Json) :=
  match members.filter fun member => member.1 = name.toList with
  | [] => some none
  | [member] => some (some member.2)
  | _ => none

-- Values of a record's fields in the order of their declaration, missing ones as
-- none. A record is an object, with members of other names ignored, or an array
-- of the fields in order, whose last ones may be missing.
def fields? (names : List String) : Json → Option (List (Option Json))
  | .array items =>
      if items.length ≤ names.length then
        some (items.map some ++ List.replicate (names.length - items.length) none)
      else none
  | .object members =>
      (members.mapM fun member => (text? member.1).map (·,member.2)).bind fun members =>
        names.mapM (unique? members)
  | _ => none

def required {α : Type} (read? : Json → Option α) : Option Json → Option α
  | some value => read? value
  | none => none

def optional {α : Type} (read? : Json → Option α) (default : α) : Option Json → Option α
  | some value => read? value
  | none => some default

end BoxLayout.Json
