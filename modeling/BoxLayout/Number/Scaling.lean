import BoxLayout.Number.Reader

namespace BoxLayout

-- Spelled numbers as singles by way of doubles, the quick way. The digits make a
-- whole number of 64 bits, and one multiplication or division by a power of ten
-- puts the point in its place. Every step rounds, so the double may lie beside
-- the one nearest to the spelling.

namespace Number.Double

-- A double without its sign is a whole number of quanta of 2^-1074.

def nearest (numerator denominator : Nat) : Nat :=
  roundSignificant Format.double.precision numerator denominator

def ofNat (n : Nat) : Nat := nearest (n * 2 ^ Format.double.scale) 1

def product? (m n : Nat) : Option Nat :=
  let rounded := nearest (m * n) (2 ^ Format.double.scale)
  if rounded < Format.double.limit then some rounded else none

def quotient (m n : Nat) : Nat := nearest (m * 2 ^ Format.double.scale) n

def lastPower : Nat := 308

def tenTo (power : Nat) : Nat := ofNat (10 ^ power)

def scaleUp? (quanta power : Nat) : Option Nat :=
  if power ≤ lastPower then product? quanta (tenTo power)
  else if quanta = 0 then some 0
  else none

def scaleDown (quanta power : Nat) : Nat :=
  if power ≤ lastPower then quotient quanta (tenTo power)
  else if quanta = 0 then 0
  else scaleDown (quotient quanta (tenTo lastPower)) (power - lastPower)
termination_by power
decreasing_by simp only [lastPower] at *; omega

def scaled? (significand : Nat) : Int → Option Nat
  | .ofNat power => scaleUp? (ofNat significand) power
  | .negSucc power => some (scaleDown (ofNat significand) (power + 1))

end Number.Double

namespace Numeral
open Number

def gather (value : Nat) : List Char → Nat × List Char
  | [] => (value,[])
  | digit :: rest =>
      let longer := 10 * value + Decimal.ofDigits [digit]
      if longer < 2 ^ 64 then gather longer rest else (value,digit :: rest)

-- The leading digits with their power of ten. A digit left over counts as a zero
-- before the point and not at all after it.
def leading (n : Numeral) : Nat × Int :=
  let (value,zeros) := gather 0 n.whole
  let (value,unread) := gather value n.fraction
  (value,n.exponent + zeros.length + unread.length - n.fraction.length)

def throughDouble? (n : Numeral) : Option Single :=
  let (significand,exponent) := n.leading
  (Double.scaled? significand exponent).map fun quanta =>
    .ofQuanta n.negative quanta (2 ^ (Format.double.scale - Format.single.scale))

def integerLimit (negative : Bool) : Nat := if negative then 2 ^ 63 else 2 ^ 64 - 1

def single? (n : Numeral) : Option Single :=
  let magnitude := Decimal.ofDigits n.whole
  if n.integral = true ∧ magnitude ≤ integerLimit n.negative then some (.ofRatio n.negative magnitude 1)
  else n.throughDouble?

end Numeral
end BoxLayout
