import BoxLayout.Number.Decimal

namespace BoxLayout

-- Spellings of decimal numbers: digits, a point, more digits, an exponent.

namespace Decimal

def Digit (c : Char) : Bool := c.isDigit

def sign? (plusAllowed : Bool) : List Char → Bool × List Char
  | '-' :: rest => (true,rest)
  | '+' :: rest => if plusAllowed then (false,rest) else (false,'+' :: rest)
  | rest => (false,rest)

def exponent? : List Char → Option Int
  | [] => some 0
  | mark :: rest =>
      if mark = 'e' ∨ mark = 'E' then
        let (negative,magnitude) := sign? true rest
        if magnitude ≠ [] ∧ magnitude.all Digit then
          some (if negative then -(ofDigits magnitude : Int) else ofDigits magnitude)
        else none
      else none

def fraction? : List Char → Option (List Char) × List Char
  | '.' :: rest => (some (rest.takeWhile Digit),rest.dropWhile Digit)
  | rest => (none,rest)

def join (whole fraction : List Char) (exponent : Int) : Decimal :=
  ⟨ofDigits (whole ++ fraction),exponent - fraction.length⟩

end Decimal

structure Numeral where
  negative : Bool
  whole : List Char
  fraction : List Char
  exponent : Int
  integral : Bool
  deriving DecidableEq

namespace Numeral
open Decimal

def read? (text : List Char) : Option Numeral :=
  let (negative,rest) := sign? false text
  let whole := rest.takeWhile Digit
  let rest := rest.dropWhile Digit
  if whole = [] ∨ (1 < whole.length ∧ whole.head? = some '0') then none
  else
    let (fraction,rest) := fraction? rest
    if fraction = some [] then none
    else (exponent? rest).map fun exponent =>
      ⟨negative,whole,fraction.getD [],exponent,fraction.isNone && rest.isEmpty⟩

end Numeral

namespace Single
open Decimal

inductive ReadError where
  | empty
  | malformed
  deriving DecidableEq

def ReadError.message : ReadError → String
  | .empty => "cannot parse float from empty string"
  | .malformed => "invalid float literal"

-- A sign, then digits with a point anywhere among or beside them and possibly an
-- exponent, or a name of infinity or not-a-number in any case.
def read (text : List Char) : Except ReadError Single :=
  if text = [] then .error .empty
  else
    let (negative,rest) := sign? true text
    let name := String.ofList (rest.map Char.toLower)
    if name = "nan" then .ok .nan
    else if name = "inf" ∨ name = "infinity" then .ok (.infinite negative)
    else
      let whole := rest.takeWhile Digit
      let (fraction,rest) := fraction? (rest.dropWhile Digit)
      if whole = [] ∧ fraction.getD [] = [] then .error .malformed
      else match exponent? rest with
        | some exponent => .ok ((join whole (fraction.getD []) exponent).toSingle negative)
        | none => .error .malformed

end Single
end BoxLayout
