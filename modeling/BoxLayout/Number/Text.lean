import BoxLayout.Number.Shortest

namespace BoxLayout
namespace Digits

def zeros (count : Int) : List Char := List.replicate count.toNat '0'

def positional (d : Digits) : List Char :=
  if d.point ≤ 0 then ['0','.'] ++ zeros (-d.point) ++ d.digits
  else if d.digits.length ≤ d.point then d.digits ++ zeros (d.point - d.digits.length)
  else d.digits.take d.point.toNat ++ '.' :: d.digits.drop d.point.toNat

def scientific (d : Digits) : List Char :=
  let exponent := d.point - 1
  let rest := d.digits.drop 1
  d.digits.take 1 ++ (if rest = [] then [] else '.' :: rest) ++
    'e' :: (if exponent < 0 then '-' else '+') :: Decimal.digits exponent.natAbs

end Digits

namespace Single
open Number

def sign (negative : Bool) : List Char := if negative then ['-'] else []

-- Shortest positional text. A tie between two shortest texts goes up.
def plain : Single → List Char
  | .nan => ['N','a','N']
  | .infinite negative => sign negative ++ ['i','n','f']
  | .finite negative quanta _ =>
      sign negative ++ (if quanta = 0 then ['0'] else (Digits.shortest .up quanta).positional)

-- Numbers of a JSON text always have a point or an exponent; the exponent is
-- written outside 10^-6 .. 10^12. A tie goes to the even digit. JSON has no
-- spelling for the rest.
def numeral? : Single → Option (List Char)
  | .finite negative quanta _ =>
      let d := Digits.shortest .even quanta
      let magnitude :=
        if quanta = 0 then ['0','.','0']
        else if -5 ≤ d.point ∧ d.point ≤ 13 then
          d.positional ++ (if d.digits.length ≤ d.point then ['.','0'] else [])
        else d.scientific
      some (sign negative ++ magnitude)
  | _ => none

-- Exact value rounded to so many places, a half to the even digit; the sign
-- stays on a value that rounds to zero.
def fixed (places : Nat) : Single → List Char
  | .nan => ['N','a','N']
  | .infinite negative => sign negative ++ ['i','n','f']
  | .finite negative quanta _ =>
      let scaled := roundQuotient (quanta * 10 ^ places) (2 ^ Format.single.scale)
      let digits := Decimal.digits scaled
      let padded := List.replicate (places + 1 - digits.length) '0' ++ digits
      let whole := padded.length - places
      sign negative ++ padded.take whole ++
        (if places = 0 then [] else '.' :: padded.drop whole)

def toText (x : Single) : String := String.ofList x.plain
def toFixed (places : Nat) (x : Single) : String := String.ofList (x.fixed places)

end Single
end BoxLayout
