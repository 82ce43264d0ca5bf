import BoxLayout.Number.Decimal

namespace BoxLayout

-- Significant digits of a number: the value 0.d1d2..dn * 10 ^ point.
structure Digits where
  digits : List Char
  point : Int
  deriving DecidableEq

namespace Digits
open Number

def ofDecimal (d : Decimal) : Digits :=
  let digits := Decimal.digits d.coefficient
  ⟨(digits.reverse.dropWhile (· = '0')).reverse,digits.length + d.exponent⟩

inductive Tie where
  | up
  | even
  deriving DecidableEq

-- The power of ten above a positive count of quanta: the value lies below
-- 10 ^ power and not below 10 ^ (power - 1). Fifty places reach every single.
def power (quanta : Nat) : Int :=
  (Decimal.digits (quanta * 10 ^ 50 / 2 ^ Format.single.scale)).length - 50

def ReadsBack (quanta : Nat) (d : Decimal) : Prop := d.units? Format.single = some quanta

instance (quanta : Nat) (d : Decimal) : Decidable (ReadsBack quanta d) :=
  inferInstanceAs (Decidable (_ = _))

def onGrid? (tie : Tie) (quanta count : Nat) : Option Decimal :=
  let exponent := power quanta - count
  let numerator := quanta * 10 ^ (-exponent).toNat
  let denominator := 2 ^ Format.single.scale * 10 ^ exponent.toNat
  let lower : Decimal := ⟨numerator / denominator,exponent⟩
  let upper : Decimal := ⟨numerator / denominator + 1,exponent⟩
  let rest := 2 * (numerator % denominator)
  let lowerNearer := rest < denominator ∨
    (rest = denominator ∧ tie = .even ∧ lower.coefficient % 2 = 0)
  if ReadsBack quanta lower then
    if ReadsBack quanta upper ∧ ¬lowerNearer then some upper else some lower
  else if ReadsBack quanta upper then some upper
  else none

def exact (quanta : Nat) : Decimal :=
  ⟨quanta * 5 ^ Format.single.scale,-(Format.single.scale : Int)⟩

-- The fewest digits that read back and the nearest of those. Nine always
-- suffice; the exact expansion stands behind them so that reading back needs no
-- argument about nine.
def shortest (tie : Tie) (quanta : Nat) : Digits :=
  ofDecimal (((List.range' 1 9).findSome? (onGrid? tie quanta)).getD (exact quanta))

end Digits
end BoxLayout
