import BoxLayout.Proofs.Number.Scaling
import BoxLayout.Proofs.Snapshot.Printed

namespace BoxLayout
open Number

-- What is read where a number was written: the same value, as a whole number of few bits
-- and a power of ten, whatever the layout.

namespace Numeral
open Decimal
variable {value : Nat} {text : List Char} {n : Numeral}

theorem gather_all (small : value * 10 ^ text.length + ofDigits text < 2 ^ 64) :
    gather value text = (value * 10 ^ text.length + ofDigits text,[]) := by
  induction text generalizing value with
  | nil =>
      rw [List.length_nil,Nat.pow_zero,Nat.mul_one]
      rfl
  | cons digit rest ih =>
      have split : value * 10 ^ (digit :: rest).length + ofDigits (digit :: rest) =
          (10 * value + ofDigits [digit]) * 10 ^ rest.length + ofDigits rest := by
        rw [← List.singleton_append,ofDigits_append,List.length_append,List.length_singleton,Nat.pow_add]
        ring
      rw [split] at small ⊢
      have longer : 10 * value + ofDigits [digit] < 2 ^ 64 :=
        Nat.lt_of_le_of_lt (Nat.le_trans (Nat.le_mul_of_pos_right _ (Nat.pow_pos (by decide))) (Nat.le_add_right ..)) small
      rw [gather,if_pos longer]
      exact ih small

def decimal (n : Numeral) : Decimal := join n.whole n.fraction n.exponent

theorem leading_eq (small : n.decimal.coefficient < 2 ^ 64) : n.leading = (n.decimal.coefficient,n.decimal.exponent) := by
  have joined : n.decimal.coefficient = ofDigits n.whole * 10 ^ n.fraction.length + ofDigits n.fraction := ofDigits_append ..
  rw [joined] at small ⊢
  have whole : 0 * 10 ^ n.whole.length + ofDigits n.whole = ofDigits n.whole := by rw [Nat.zero_mul,Nat.zero_add]
  have first : gather 0 n.whole = (ofDigits n.whole,[]) := by
    rw [gather_all,whole]
    rw [whole]
    exact Nat.lt_of_le_of_lt (Nat.le_trans (Nat.le_mul_of_pos_right _ (Nat.pow_pos (by decide))) (Nat.le_add_right ..)) small
  unfold leading
  rw [first]
  dsimp only
  rw [gather_all small]
  simp [decimal,join]

-- Read as the nearest double, and that as the nearest single.
def throughNearest? (n : Numeral) : Option Single :=
  (n.decimal.units? Format.double).map fun quanta => .ofQuanta n.negative quanta (2 ^ (Format.double.scale - Format.single.scale))

end Numeral

namespace Digits
open Decimal
variable {d : Digits} {negative : Bool}

theorem numeral_parts (d : Digits) (negative : Bool) : (d.numeral negative).decimal = (d.numeral false).decimal ∧
    (d.numeral negative).integral = false ∧ (d.numeral negative).negative = negative := by
  unfold numeral
  split_ifs <;> exact ⟨rfl,rfl,rfl⟩

-- Zeros written after the digits multiply them, those before count for nothing.
theorem decimal_numeral (some : d.digits ≠ []) : (d.numeral negative).decimal = ⟨ofDigits d.digits,d.point - d.digits.length⟩ ∨
    d.digits.length ≤ d.point ∧ d.point ≤ 13 ∧
      (d.numeral negative).decimal = ⟨ofDigits d.digits * 10 ^ ((d.point - d.digits.length).toNat + 1),-1⟩ := by
  have length := List.length_pos_iff.mpr some
  unfold numeral Numeral.decimal join
  split
  · split
    · left
      dsimp only
      have padded : ofDigits (['0'] ++ zeros (-d.point)) = 0 := ofDigits_zeros ((-d.point).toNat + 1)
      rw [← List.append_assoc,ofDigits_append,padded,Nat.zero_mul,Nat.zero_add,List.length_append,zeros,List.length_replicate]
      congr 1
      omega
    · split
      · rename_i near _ long
        refine .inr ⟨long,near.2,?_⟩
        have padded : ofDigits (zeros (d.point - d.digits.length) ++ ['0']) = 0 := by
          rw [zeros,← List.replicate_succ',ofDigits_zeros]
        dsimp only
        rw [List.append_assoc,ofDigits_append,padded,Nat.add_zero,List.length_append,zeros,List.length_replicate]
        rfl
      · left
        dsimp only
        rw [List.take_append_drop,List.length_drop]
        congr 1
        omega
  · left
    dsimp only
    rw [List.take_append_drop,List.length_drop]
    congr 1
    omega

structure Reads (d w : Decimal) : Prop where
  value : w.value = d.value
  some : 0 < w.coefficient
  few : w.coefficient < 2 ^ 53
  least : min d.exponent (-1) ≤ w.exponent

theorem reads_numeral {d : Decimal} (some : 0 < d.coefficient) (few : d.coefficient ≤ 10 ^ 9) (negative : Bool) :
    Reads d ((ofDecimal d).numeral negative).decimal := by
  obtain ⟨zeros,coefficient,exponent⟩ := exists_stripped d
  have worth := value_ofDecimal d
  have proper := proper_ofDecimal some
  have stripped : 0 < ofDigits (ofDecimal d).digits := by
    refine Nat.pos_of_ne_zero fun none => ?_
    rw [none,Nat.zero_mul] at coefficient
    omega
  have less : ofDigits (ofDecimal d).digits ≤ d.coefficient := by
    rw [coefficient]
    exact Nat.le_mul_of_pos_right _ (Nat.pow_pos (by decide))
  rcases @decimal_numeral _ negative proper.nonempty with is | ⟨long,near,is⟩
  · rw [is]
    refine ⟨worth,stripped,?_,?_⟩
    · dsimp only
      omega
    · dsimp only
      omega
  · have room : ofDigits (ofDecimal d).digits < 10 ^ (ofDecimal d).digits.length := by
      refine Nat.lt_of_mul_lt_mul_right (?_ : _ * 10 ^ zeros < _ * 10 ^ zeros)
      have all : (Decimal.digits d.coefficient).length = (ofDecimal d).digits.length + zeros := by
        have point : (ofDecimal d).point = (Decimal.digits d.coefficient).length + d.exponent := rfl
        omega
      rw [← coefficient,← Nat.pow_add,← all]
      exact lt_pow_length _
    rw [is]
    refine ⟨?_,Nat.mul_pos stripped (Nat.pow_pos (by decide)),?_,Int.min_le_right ..⟩
    · rw [← worth,Decimal.value,value]
      dsimp only
      push_cast
      rw [mul_assoc]
      exact congrArg _ (zpow_split (by omega)).symm
    · calc ofDigits (ofDecimal d).digits * 10 ^ (((ofDecimal d).point - (ofDecimal d).digits.length).toNat + 1)
          ≤ 10 ^ (ofDecimal d).digits.length * 10 ^ (((ofDecimal d).point - (ofDecimal d).digits.length).toNat + 1) :=
            Nat.mul_le_mul_right _ (Nat.le_of_lt room)
        _ = 10 ^ ((ofDecimal d).digits.length + (((ofDecimal d).point - (ofDecimal d).digits.length).toNat + 1)) := (Nat.pow_add ..).symm
        _ ≤ 10 ^ 14 := Nat.pow_le_pow_right (by decide) (by omega)
        _ < 2 ^ 53 := by decide

end Digits

namespace Single

theorem ofQuanta_eq_finite {negative other : Bool} {numerator denominator quanta : Nat} {representable : Representable quanta} :
    ofQuanta negative numerator denominator = finite other quanta representable ↔
      negative = other ∧ roundSignificant Format.single.precision numerator denominator = quanta := by
  unfold ofQuanta
  dsimp only
  split
  · exact Iff.of_eq (finite.injEq ..)
  · rename_i unbounded
    constructor
    · rintro ⟨⟩
    · rintro ⟨_,rfl⟩
      exact absurd representable.1 unbounded

def rereadNearest? (x : Single) : Option Single :=
  x.numeral?.bind fun spelling => (Numeral.read? spelling).bind Numeral.throughNearest?

def SurvivesNearest (x : Single) : Prop := x.rereadNearest? = some x

instance (x : Single) : Decidable x.SurvivesNearest := inferInstanceAs (Decidable (_ = _))

-- Either way the sign has no part in what is read.
theorem survives_iff {quanta : Nat} (representable : Representable quanta) (positive : 0 < quanta) {d : Decimal}
    (shortest : Digits.shortest .even quanta = Digits.ofDecimal d) (some : 0 < d.coefficient) (few : d.coefficient ≤ 10 ^ 9) :
    ∃ w, Digits.Reads d w ∧ ∀ negative,
      ((finite negative quanta representable).Survives ↔ ∃ y, Double.scaled? w.coefficient w.exponent = .some y ∧ Double.narrow y = quanta) ∧
      ((finite negative quanta representable).SurvivesNearest ↔ ∃ y, w.units? Format.double = .some y ∧ Double.narrow y = quanta) := by
  refine ⟨_,Digits.reads_numeral some few false,fun negative => ?_⟩
  have reads := Digits.reads_numeral some few negative
  obtain ⟨decimal,integral,sign⟩ := (Digits.ofDecimal d).numeral_parts negative
  have written := numeral?_positive negative representable positive
  rw [shortest] at written
  unfold Survives reread? SurvivesNearest rereadNearest?
  rw [← Option.bind_assoc,written,Option.bind_some,Numeral.single?,if_neg (by simp [integral]),Numeral.throughDouble?,
    Numeral.leading_eq (Nat.lt_trans reads.few (by decide)),← Option.bind_assoc,written,Option.bind_some,Numeral.throughNearest?,decimal,sign]
  simp only [Option.map_eq_some_iff,ofQuanta_eq_finite,true_and,Double.narrow,and_self]

end Single
end BoxLayout
