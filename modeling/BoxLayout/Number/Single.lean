import BoxLayout.Number.Rounding

namespace BoxLayout
open Number

-- Single-precision binary numbers. A finite one is a sign and a whole number of
-- quanta of 2^-149, the distance between the smallest of them, so sums and
-- quotients are exact integer arithmetic followed by one rounding.

namespace Number.Format

-- A binary format: significant bits, 2 ^ scale quanta to one, and values below 2 ^ range.
structure Binary where
  precision : Nat
  scale : Nat
  range : Nat

def Binary.limit (format : Binary) : Nat := 2 ^ format.range * 2 ^ format.scale

def single : Binary := ⟨24,149,128⟩
def double : Binary := ⟨53,1074,1024⟩

end Number.Format

def Representable (quanta : Nat) : Prop :=
  quanta < Format.single.limit ∧ Fits Format.single.precision quanta

-- There is one not-a-number; the two zeros differ by their sign only.
inductive Single where
  | nan
  | infinite (negative : Bool)
  | finite (negative : Bool) (quanta : Nat) (representable : Representable quanta)
  deriving DecidableEq

namespace Single

def zero (negative : Bool) : Single :=
  .finite negative 0 ⟨by decide,fits_zero _⟩

def ofQuanta (negative : Bool) (numerator denominator : Nat) : Single :=
  let quanta := roundSignificant Format.single.precision numerator denominator
  if bounded : quanta < Format.single.limit then
    .finite negative quanta ⟨bounded,fits_roundSignificant _ _ _ (by decide)⟩
  else .infinite negative

def ofRatio (negative : Bool) (numerator denominator : Nat) : Single :=
  ofQuanta negative (numerator * 2 ^ Format.single.scale) denominator

def ofNat (n : Nat) : Single := ofRatio false n 1

instance (n : Nat) : OfNat Single n := ⟨ofNat n⟩
instance : Inhabited Single := ⟨zero false⟩

def neg : Single → Single
  | .nan => .nan
  | .infinite negative => .infinite !negative
  | .finite negative quanta representable => .finite (!negative) quanta representable

instance : Neg Single := ⟨neg⟩

def signed (negative : Bool) (magnitude : Nat) : Int :=
  if negative then -(magnitude : Int) else magnitude

-- Opposite infinities have no sum, and a zero sum is negative only when both terms are.
def add : Single → Single → Single
  | .nan,_ => .nan
  | _,.nan => .nan
  | .infinite left,.infinite right => if left = right then .infinite left else .nan
  | .infinite left,.finite .. => .infinite left
  | .finite ..,.infinite right => .infinite right
  | .finite left m _,.finite right n _ =>
      let total := signed left m + signed right n
      if total = 0 then zero (left && right)
      else ofQuanta (total < 0) total.natAbs 1

def sub (x y : Single) : Single := add x (neg y)

def div : Single → Single → Single
  | .nan,_ => .nan
  | _,.nan => .nan
  | .infinite _,.infinite _ => .nan
  | .infinite left,.finite right .. => .infinite (left != right)
  | .finite left ..,.infinite right => zero (left != right)
  | .finite left m _,.finite right n _ =>
      if n = 0 then (if m = 0 then .nan else .infinite (left != right))
      else ofRatio (left != right) m n

instance : Add Single := ⟨add⟩
instance : Sub Single := ⟨sub⟩
instance : Div Single := ⟨div⟩

-- Place on the number line in quanta, infinities at its ends; not-a-number has none.
def rank : Single → Option Int
  | .nan => none
  | .infinite negative => some (signed negative Format.single.limit)
  | .finite negative quanta _ => some (signed negative quanta)

def Precedes (related : Int → Int → Prop) (x y : Single) : Prop :=
  match x.rank,y.rank with
  | some a,some b => related a b
  | _,_ => False

-- Comparisons with not-a-number are false, so ≤ is not the negation of <.
instance : LT Single := ⟨Precedes (· < ·)⟩
instance : LE Single := ⟨Precedes (· ≤ ·)⟩

instance (related : Int → Int → Prop) [∀ a b, Decidable (related a b)] (x y : Single) :
    Decidable (Precedes related x y) := by
  unfold Precedes
  split <;> infer_instance

instance (x y : Single) : Decidable (x < y) := inferInstanceAs (Decidable (Precedes (· < ·) x y))
instance (x y : Single) : Decidable (x ≤ y) := inferInstanceAs (Decidable (Precedes (· ≤ ·) x y))

-- Equal as numbers: the zeros are equal and not-a-number equals nothing.
def Same (x y : Single) : Prop := Precedes (· = ·) x y

instance (x y : Single) : Decidable (Same x y) := inferInstanceAs (Decidable (Precedes (· = ·) x y))

-- The other operand when one is not-a-number, the left one of two zeros.
instance : Max Single := ⟨fun x y => if x = .nan then y else if x < y then y else x⟩
instance : Min Single := ⟨fun x y => if x = .nan then y else if y < x then y else x⟩

def positivePart (x : Single) : Single := if 0 < x then x else 0

def isNegative : Single → Bool
  | .nan => false
  | .infinite negative => negative
  | .finite negative .. => negative

def IsFinite : Single → Prop
  | .finite .. => True
  | _ => False

instance : (x : Single) → Decidable x.IsFinite
  | .finite .. => isTrue trivial
  | .nan => isFalse id
  | .infinite _ => isFalse id

def half : Single := ofRatio false 1 2
def tenth : Single := ofRatio false 1 10

end Single
end BoxLayout
