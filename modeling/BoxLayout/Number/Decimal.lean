import BoxLayout.Number.Single

namespace BoxLayout

-- Unsigned decimal numbers and the nearest binary number to one.

structure Decimal where
  coefficient : Nat
  exponent : Int
  deriving DecidableEq

namespace Decimal
open Number

def digits (n : Nat) : List Char := Nat.toDigits 10 n

def ofDigits (text : List Char) : Nat :=
  text.foldl (fun value digit => 10 * value + (digit.toNat - '0'.toNat)) 0

def numerator (d : Decimal) : Nat := d.coefficient * 10 ^ d.exponent.toNat
def denominator (d : Decimal) : Nat := 10 ^ (-d.exponent).toNat

-- A nonzero value lies between 10 ^ (top - 1) and 10 ^ top.
def top (d : Decimal) : Int := (digits d.coefficient).length + d.exponent

-- Beyond these powers of ten every format here overflows or vanishes, and the
-- exact quotient, which may be huge, need not be formed.
def farthest : Int := 400

def units? (format : Format.Binary) (d : Decimal) : Option Nat :=
  if d.coefficient = 0 ∨ d.top < -farthest then some 0
  else if farthest < d.top then none
  else
    let units := roundSignificant format.precision (d.numerator * 2 ^ format.scale) d.denominator
    if units < format.limit then some units else none

def toSingle (negative : Bool) (d : Decimal) : Single :=
  match d.units? Format.single with
  | some units => .ofQuanta negative units 1
  | none => .infinite negative

end Decimal
end BoxLayout
