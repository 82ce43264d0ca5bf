import Mathlib.Algebra.Order.Field.Rat
import Mathlib.Algebra.Order.Ring.Abs
import Mathlib.Data.Nat.Cast.Order.Field
import Mathlib.Tactic.FieldSimp
import Mathlib.Tactic.Linarith
import Mathlib.Tactic.NormNum
import Mathlib.Tactic.Positivity
import Mathlib.Tactic.Ring
import BoxLayout.Proofs.Number.Constrain

namespace BoxLayout
open Number

-- What single-precision numbers are worth, and how far one rounding leads away from the
-- exact result.

namespace Number
variable {precision numerator denominator : Nat}

theorem roundQuotient_half (positive : 0 < denominator) :
    2 * (roundQuotient numerator denominator * denominator) ≤ 2 * numerator + denominator ∧
      2 * numerator ≤ 2 * (roundQuotient numerator denominator * denominator) + denominator := by
  have split := Nat.div_add_mod numerator denominator
  have rest : numerator % denominator < denominator := Nat.mod_lt _ positive
  rw [Nat.mul_comm] at split
  unfold roundQuotient
  dsimp only
  generalize numerator / denominator = whole at *
  generalize numerator % denominator = rest' at *
  split
  · rw [Nat.add_mul,Nat.one_mul]
    omega
  · omega

theorem roundQuotient_error (positive : 0 < denominator) (dropped : Nat) :
    |((roundQuotient numerator (denominator * 2 ^ dropped) * 2 ^ dropped : Nat) : ℚ) - numerator / denominator| ≤ 2 ^ dropped / 2 := by
  have below : (0 : ℚ) < denominator := by exact_mod_cast positive
  obtain ⟨high,low⟩ := @roundQuotient_half numerator _ (Nat.mul_pos positive (Nat.two_pow_pos dropped))
  generalize roundQuotient numerator (denominator * 2 ^ dropped) = rounded at *
  have high' : (2 * (rounded * (denominator * 2 ^ dropped)) : ℚ) ≤ 2 * numerator + denominator * 2 ^ dropped := by exact_mod_cast high
  have low' : (2 * numerator : ℚ) ≤ 2 * (rounded * (denominator * 2 ^ dropped)) + denominator * 2 ^ dropped := by exact_mod_cast low
  have exactly : (numerator / denominator : ℚ) * denominator = numerator := div_mul_cancel₀ _ below.ne'
  generalize (numerator / denominator : ℚ) = quotient at *
  push_cast
  rw [abs_le]
  constructor
  · refine le_of_mul_le_mul_right ?_ below
    linarith
  · refine le_of_mul_le_mul_right ?_ below
    linarith

-- Half a unit in the last place kept, and none at all where every place is kept.
theorem roundSignificant_error (positive : 0 < denominator) (precise : 0 < precision) :
    |(roundSignificant precision numerator denominator : ℚ) - numerator / denominator| ≤
      numerator / denominator / 2 ^ precision + if denominator = 1 then 0 else 1 / 2 := by
  have nonneg : (0 : ℚ) ≤ numerator / denominator / 2 ^ precision := by positivity
  have error := @roundQuotient_error numerator _ positive (droppedBits precision (numerator / denominator))
  change |(roundSignificant precision numerator denominator : ℚ) - numerator / denominator| ≤ _ at error
  by_cases small : droppedBits precision (numerator / denominator) = 0
  · rw [small] at error
    split
    · rename_i whole
      subst whole
      have kept : roundSignificant precision numerator 1 = numerator := by
        unfold roundSignificant
        dsimp only
        rw [small]
        simp [roundQuotient,Nat.mod_one]
      rw [kept]
      simpa using nonneg
    · linarith
  · have binade : 2 ^ (droppedBits precision (numerator / denominator) + precision) ≤ 2 * (numerator / denominator) := by
      have some : numerator / denominator ≠ 0 := fun none => small (by rw [none]; exact Nat.sub_eq_zero_of_le precise)
      have least := Nat.log2_self_le some
      have places : droppedBits precision (numerator / denominator) + precision = (numerator / denominator).log2 + 1 := by
        unfold droppedBits at small ⊢
        omega
      rw [places,Nat.pow_succ]
      omega
    have binade' : (2 : ℚ) ^ droppedBits precision (numerator / denominator) * 2 ^ precision ≤ 2 * (numerator / denominator : ℚ) := by
      have whole : ((numerator / denominator : Nat) : ℚ) ≤ numerator / denominator := Nat.cast_div_le
      have cast : ((2 ^ (droppedBits precision (numerator / denominator) + precision) : Nat) : ℚ) ≤
          ((2 * (numerator / denominator) : Nat) : ℚ) := by exact_mod_cast binade
      push_cast at cast
      rw [pow_add] at cast
      linarith
    have unit : (2 : ℚ) ^ droppedBits precision (numerator / denominator) / 2 ≤ numerator / denominator / 2 ^ precision := by
      rw [le_div_iff₀ (by positivity)]
      linarith
    split <;> linarith

end Number

namespace Single
variable {x y : Single} {a : Int} {negative : Bool} {numerator denominator : Nat}

-- The number in ones; infinities are worth the first count past the range, and
-- not-a-number nothing.
def value (x : Single) : ℚ := (x.rank.getD 0 : ℚ) / 2 ^ Format.single.scale

theorem value_of_rank (rank : x.rank = some a) : x.value = a / 2 ^ Format.single.scale := by
  rw [value,rank]
  rfl

theorem le_iff_value (left : x ≠ .nan) (right : y ≠ .nan) : x ≤ y ↔ x.value ≤ y.value := by
  obtain ⟨a,rank⟩ := exists_rank left
  obtain ⟨b,rank'⟩ := exists_rank right
  rw [value_of_rank rank,value_of_rank rank',div_le_div_iff_of_pos_right (by positivity),Int.cast_le,le_iff]
  constructor
  · rintro ⟨_,_,same,same',le⟩
    cases rank.symm.trans same
    cases rank'.symm.trans same'
    exact le
  · exact fun le => ⟨a,b,rank,rank',le⟩

theorem lt_iff_value (left : x ≠ .nan) (right : y ≠ .nan) : x < y ↔ x.value < y.value := by
  rw [← not_le,← le_iff_value right left]
  exact ⟨fun less le => not_lt_of_le le less,fun more => Decidable.of_not_not fun less => more (le_of_not_lt right left less)⟩

theorem Same.value (same : x.Same y) : x.value = y.value := by
  obtain ⟨a,rank,rank'⟩ := same_iff.mp same
  rw [value_of_rank rank,value_of_rank rank']

theorem IsFinite.ne_nan (finite : x.IsFinite) : x ≠ .nan := by
  rintro rfl
  exact finite

theorem IsFinite.add_ne_nan (left : x.IsFinite) (right : y.IsFinite) : x + y ≠ .nan := by
  cases x with
  | finite sx m one =>
      cases y with
      | finite sy n two =>
          change add _ _ ≠ _
          simp only [add]
          split
          · exact Single.noConfusion
          · unfold ofQuanta
            dsimp only
            split <;> exact Single.noConfusion
      | _ => cases right
  | _ => cases left

theorem value_nonneg (nonneg : 0 ≤ x) : 0 ≤ x.value := by
  obtain ⟨a,rank,positive⟩ := nonneg_iff.mp nonneg
  rw [value_of_rank rank]
  positivity

def signOf (negative : Bool) : ℚ := if negative then -1 else 1

theorem abs_signOf_mul (negative : Bool) (a : ℚ) : |signOf negative * a| = |a| := by
  cases negative <;> simp [signOf]

theorem cast_signed (negative : Bool) (quanta : Nat) : (signed negative quanta : ℚ) = signOf negative * quanta := by
  cases negative <;> simp [signed,signOf]

theorem signOf_mul_natAbs (total : Int) : signOf (decide (total < 0)) * (total.natAbs : ℚ) = total := by
  rw [← cast_signed,Int.cast_inj]
  unfold signed
  split
  · rename_i negative
    have less := of_decide_eq_true negative
    omega
  · rename_i nonneg
    have more := of_decide_eq_false (eq_false_of_ne_true nonneg)
    omega

theorem value_signed_zero (negative : Bool) : (zero negative).value = 0 := by
  rw [value_of_rank (rank_zero negative),Int.cast_zero,zero_div]

theorem isFinite_zero : (0 : Single).IsFinite := by decide

theorem value_zero : (0 : Single).value = 0 := value_signed_zero false

theorem value_finite (negative : Bool) (quanta : Nat) (representable : Representable quanta) :
    (finite negative quanta representable).value = signOf negative * quanta / 2 ^ Format.single.scale := by
  rw [value_of_rank rfl,cast_signed]

theorem isFinite_of_value (number : x ≠ .nan) (small : |x.value| < 2 ^ Format.single.range) : x.IsFinite := by
  cases x with
  | nan => exact absurd rfl number
  | infinite negative =>
      have large : |(infinite negative).value| = 2 ^ Format.single.range := by
        rw [value_of_rank rfl,cast_signed,mul_div_assoc,abs_signOf_mul,Format.Binary.limit]
        push_cast
        rw [mul_div_cancel_right₀ _ (by positivity),abs_of_pos (by positivity)]
      exact absurd (large ▸ small) (lt_irrefl _)
  | finite negative quanta representable => trivial

theorem abs_value_lt (finite : x.IsFinite) : |x.value| < 2 ^ Format.single.range := by
  cases x with
  | nan => cases finite
  | infinite _ => cases finite
  | finite negative quanta representable =>
      rw [value_finite,abs_div,abs_signOf_mul,abs_of_pos (by positivity : (0 : ℚ) < 2 ^ Format.single.scale),
        div_lt_iff₀ (by positivity),abs_of_nonneg (by positivity)]
      exact_mod_cast representable.1

theorem Same.isFinite (same : x.Same y) (finite : y.IsFinite) : x.IsFinite := by
  refine isFinite_of_value (ne_nan_of_le same.le).1 ?_
  rw [same.value]
  exact abs_value_lt finite

theorem isFinite_of_le (nonneg : 0 ≤ x) (le : x ≤ y) (finite : y.IsFinite) : x.IsFinite := by
  have smaller := (le_iff_value (ne_nan_of_le le).1 finite.ne_nan).mp le
  refine isFinite_of_value (ne_nan_of_le le).1 ?_
  rw [abs_of_nonneg (value_nonneg nonneg)]
  exact smaller.trans_lt ((le_abs_self _).trans_lt (abs_value_lt finite))

theorem ofQuanta_error (negative : Bool) (positive : 0 < denominator) (small : (numerator / denominator : ℚ) ≤ 2 ^ 127 * 2 ^ Format.single.scale) :
    (ofQuanta negative numerator denominator).IsFinite ∧
      |(ofQuanta negative numerator denominator).value - signOf negative * (numerator / denominator) / 2 ^ Format.single.scale| ≤
      (numerator / denominator / 2 ^ Format.single.precision + if denominator = 1 then 0 else 1 / 2) / 2 ^ Format.single.scale := by
  have error := @roundSignificant_error _ numerator _ positive (by decide : 0 < Format.single.precision)
  have slack : (if denominator = 1 then 0 else 1 / 2 : ℚ) ≤ 1 / 2 := by split <;> norm_num
  generalize (if denominator = 1 then 0 else 1 / 2 : ℚ) = rest at *
  have bounded : roundSignificant Format.single.precision numerator denominator < Format.single.limit := by
    have above := (abs_le.mp error).2
    have limit : ((Format.single.limit : Nat) : ℚ) = 2 * (2 ^ 127 * 2 ^ Format.single.scale) := by
      simp only [Format.Binary.limit,Format.single]
      push_cast
      ring
    have places : (numerator / denominator : ℚ) / 2 ^ Format.single.precision ≤ numerator / denominator / 2 := by
      refine div_le_div_of_nonneg_left (by positivity) (by norm_num) ?_
      norm_num [Format.single]
    have room : (2 : ℚ) ≤ 2 ^ 127 * 2 ^ Format.single.scale := by
      have scaled : (1 : ℚ) ≤ 2 ^ Format.single.scale := one_le_pow₀ (by norm_num)
      linarith
    generalize (2 ^ 127 * 2 ^ Format.single.scale : ℚ) = most at *
    have fits : ((roundSignificant Format.single.precision numerator denominator : Nat) : ℚ) < (Format.single.limit : Nat) := by
      rw [limit]
      linarith
    exact_mod_cast fits
  obtain ⟨representable,found⟩ : ∃ representable, ofQuanta negative numerator denominator =
      .finite negative (roundSignificant Format.single.precision numerator denominator) representable := ⟨_,dif_pos bounded⟩
  rw [found]
  refine ⟨trivial,?_⟩
  rw [value_finite,← sub_div,← mul_sub,abs_div,abs_signOf_mul,abs_of_pos (by positivity : (0 : ℚ) < 2 ^ Format.single.scale)]
  exact div_le_div_of_nonneg_right error (by positivity)

theorem add_error (left : x.IsFinite) (right : y.IsFinite) (small : |x.value + y.value| ≤ 2 ^ 127) :
    (x + y).IsFinite ∧ |(x + y).value - (x.value + y.value)| ≤ |x.value + y.value| / 2 ^ Format.single.precision := by
  cases x with
  | nan => cases left
  | infinite _ => cases left
  | finite sx m one =>
      cases y with
      | nan => cases right
      | infinite _ => cases right
      | finite sy n two =>
          have whole : (finite sx m one).value + (finite sy n two).value =
              ((signed sx m + signed sy n : Int) : ℚ) / 2 ^ Format.single.scale := by
            rw [value_finite,value_finite,Int.cast_add,cast_signed,cast_signed,add_div]
          rw [whole] at small ⊢
          change (add _ _).IsFinite ∧ |(add _ _).value - _| ≤ _
          simp only [add]
          generalize signed sx m + signed sy n = total at *
          split
          · rename_i none
            rw [value_signed_zero,none,Int.cast_zero,zero_div,sub_zero,abs_zero,zero_div]
            exact ⟨trivial,le_rfl⟩
          · have size : |(total : ℚ) / 2 ^ Format.single.scale| = total.natAbs / 2 ^ Format.single.scale := by
              rw [abs_div,abs_of_pos (by positivity : (0 : ℚ) < 2 ^ Format.single.scale),Nat.cast_natAbs,Int.cast_abs]
            rw [size] at small ⊢
            have room : (total.natAbs / (1 : Nat) : ℚ) ≤ 2 ^ 127 * 2 ^ Format.single.scale := by
              rw [Nat.cast_one,div_one]
              exact (div_le_iff₀ (by positivity)).mp small
            obtain ⟨finite,error⟩ := ofQuanta_error (decide (total < 0)) Nat.one_pos room
            rw [Nat.cast_one,div_one,signOf_mul_natAbs,if_pos rfl,add_zero,div_right_comm] at error
            exact ⟨finite,error⟩

theorem rank_neg (x : Single) : (-x).rank = x.rank.map (- ·) := by
  have opposite : ∀ negative quanta, signed (!negative) quanta = -signed negative quanta := by
    intro negative quanta
    cases negative <;> simp [signed]
  cases x with
  | nan => rfl
  | infinite negative => exact congrArg some (opposite negative _)
  | finite negative quanta representable => exact congrArg some (opposite negative _)

theorem value_neg (x : Single) : (-x).value = -x.value := by
  unfold value
  rw [rank_neg]
  cases x.rank with
  | none => simp
  | some a => simp [neg_div]

theorem ofNat_error {n : Nat} (small : (n : ℚ) ≤ 2 ^ 127) : (ofNat n).IsFinite ∧ |(ofNat n).value - n| ≤ n / 2 ^ Format.single.precision := by
  have unit : (0 : ℚ) < 2 ^ Format.single.scale := by positivity
  have whole : ((n * 2 ^ Format.single.scale : Nat) / (1 : Nat) : ℚ) = n * 2 ^ Format.single.scale := by
    push_cast
    rw [div_one]
  obtain ⟨finite,error⟩ := @ofQuanta_error (n * 2 ^ Format.single.scale) 1 false Nat.one_pos
    (by rw [whole]; exact mul_le_mul_of_nonneg_right small unit.le)
  have positive : signOf false = 1 := rfl
  rw [whole,if_pos rfl,add_zero,positive,one_mul,mul_div_cancel_right₀ _ unit.ne',div_right_comm,mul_div_cancel_right₀ _ unit.ne'] at error
  exact ⟨finite,error⟩

theorem div_error (left : x.IsFinite) (right : y.IsFinite) (positive : 0 < y.value) (small : |x.value / y.value| ≤ 2 ^ 127) :
    (x / y).IsFinite ∧
      |(x / y).value - x.value / y.value| ≤ |x.value / y.value| / 2 ^ Format.single.precision + 1 / 2 / 2 ^ Format.single.scale := by
  have unit : (0 : ℚ) < 2 ^ Format.single.scale := by positivity
  cases x with
  | nan => cases left
  | infinite _ => cases left
  | finite sx m one =>
      cases y with
      | nan => cases right
      | infinite _ => cases right
      | finite sy n two =>
          have whole : (Single.finite sx m one).value / (Single.finite sy n two).value =
              signOf (sx != sy) * (m / n) := by
            rw [value_finite,value_finite,div_div_div_cancel_right₀ unit.ne']
            cases sx <;> cases sy <;> simp [signOf,neg_div,div_neg]
          have ne : n ≠ 0 := by
            rintro rfl
            rw [value_finite,Nat.cast_zero,mul_zero,zero_div] at positive
            exact lt_irrefl _ positive
          have quotient : ((m * 2 ^ Format.single.scale : Nat) / n : ℚ) = m / n * 2 ^ Format.single.scale := by
            push_cast
            ring
          rw [whole,abs_signOf_mul,abs_of_nonneg (by positivity : (0 : ℚ) ≤ m / n)] at small ⊢
          obtain ⟨finite,error⟩ := @ofQuanta_error (m * 2 ^ Format.single.scale) n (sx != sy) (Nat.pos_of_ne_zero ne)
            (by rw [quotient]; exact mul_le_mul_of_nonneg_right small unit.le)
          change (div _ _).IsFinite ∧ |(div _ _).value - _| ≤ _
          simp only [div,if_neg ne,ofRatio]
          refine ⟨finite,?_⟩
          rw [quotient,mul_div_assoc,mul_div_cancel_right₀ _ unit.ne',add_div,div_right_comm,mul_div_cancel_right₀ _ unit.ne'] at error
          refine error.trans ?_
          gcongr
          split <;> norm_num

theorem part_error {parts : Nat} (finite : x.IsFinite) (some : 0 < parts) (small : (parts : ℚ) ≤ 2 ^ 127) (within : |x.value| ≤ 2 ^ 126) :
    (x / ofNat parts).IsFinite ∧ |(x / ofNat parts).value - x.value / parts| ≤
      |x.value / parts| * (3 / 2 ^ Format.single.precision) + 1 / 2 / 2 ^ Format.single.scale := by
  have some' : (1 : ℚ) ≤ parts := by exact_mod_cast some
  have positive : (0 : ℚ) < parts := by linarith
  have unit : (1 / 2 ^ Format.single.precision : ℚ) ≤ 1 / 4 := by norm_num [Format.single]
  obtain ⟨finite',count⟩ := ofNat_error small
  generalize ofNat parts = divisor at *
  have close := abs_le.mp count
  rw [div_eq_mul_one_div] at close
  have least : parts * (3 / 4) ≤ divisor.value := by
    have part : (parts : ℚ) * (1 / 2 ^ Format.single.precision) ≤ parts * (1 / 4) := mul_le_mul_of_nonneg_left unit positive.le
    linarith
  have above : 0 < divisor.value := by linarith
  have size : |x.value / divisor.value| ≤ |x.value / parts| * (4 / 3) := by
    rw [abs_div,abs_div,abs_of_pos above,abs_of_pos positive,div_mul_eq_mul_div,div_le_div_iff₀ above positive]
    linarith [mul_le_mul_of_nonneg_left least (abs_nonneg x.value)]
  have apart : |x.value / divisor.value - x.value / parts| ≤ |x.value / divisor.value| / 2 ^ Format.single.precision := by
    have ratio : x.value / divisor.value - x.value / parts = x.value / divisor.value * ((parts - divisor.value) / parts) := by
      field_simp
    rw [ratio,abs_mul,div_eq_mul_one_div |x.value / divisor.value|]
    refine mul_le_mul_of_nonneg_left ?_ (abs_nonneg _)
    rw [abs_div,abs_of_pos positive,abs_sub_comm,div_le_iff₀ positive,mul_comm,mul_one_div]
    exact count
  obtain ⟨finite,error⟩ := div_error finite finite' above (by
    have smaller : |x.value / parts| ≤ |x.value| := by
      rw [abs_div,abs_of_pos positive]
      exact div_le_self (abs_nonneg _) some'
    linarith)
  refine ⟨finite,?_⟩
  have triangle := abs_sub_le (x / divisor).value (x.value / divisor.value) (x.value / parts)
  have twice : |x.value / divisor.value| / 2 ^ Format.single.precision ≤ |x.value / parts| * (4 / 3) / 2 ^ Format.single.precision :=
    div_le_div_of_nonneg_right size (by positivity)
  have total : |x.value / parts| * (4 / 3) / 2 ^ Format.single.precision * 2 ≤ |x.value / parts| * (3 / 2 ^ Format.single.precision) := by
    rw [mul_div_assoc,mul_assoc]
    refine mul_le_mul_of_nonneg_left ?_ (abs_nonneg _)
    rw [div_mul_eq_mul_div]
    exact div_le_div_of_nonneg_right (by norm_num) (by positivity)
  linarith

end Single

theorem constrain_closer {value minimum : Single} (finite : value.IsFinite) (low : ¬IsSet minimum) (maximum : Single) :
    (constrain value minimum maximum).IsFinite ∧ (constrain value minimum maximum).value ≤ value.value ∧
      |(constrain value minimum maximum).value| + |value.value - (constrain value minimum maximum).value| ≤ |value.value| := by
  unfold constrain
  dsimp only
  rw [if_neg low]
  have same : |value.value| + |value.value - value.value| ≤ |value.value| := by rw [sub_self,abs_zero,add_zero]
  split
  · rename_i high
    rw [Single.min_def,if_neg finite.ne_nan]
    split
    · rename_i less
      have smaller := ((Single.lt_iff_value high.number finite.ne_nan).mp less).le
      have nonneg := Single.value_nonneg high
      have between : |maximum.value| + |value.value - maximum.value| ≤ |value.value| := by
        rw [abs_of_nonneg nonneg,abs_of_nonneg (sub_nonneg.mpr smaller),abs_of_nonneg (nonneg.trans smaller),add_sub_cancel]
      have closer : |maximum.value| ≤ |value.value| := (le_add_of_nonneg_right (abs_nonneg _)).trans between
      exact ⟨Single.isFinite_of_value high.number (closer.trans_lt (Single.abs_value_lt finite)),smaller,between⟩
    · exact ⟨finite,le_rfl,same⟩
  · exact ⟨finite,le_rfl,same⟩

theorem constrain_value_le {value minimum : Single} {most : ℚ} (number : value ≠ .nan) (below : value.value ≤ most)
    (low : IsSet minimum → minimum.value ≤ most) (maximum : Single) : (constrain value minimum maximum).value ≤ most := by
  have capped : (if IsSet maximum then min value maximum else value).value ≤ most := by
    split
    · rename_i high
      rw [Single.min_def,if_neg number]
      split
      · rename_i less
        exact ((Single.lt_iff_value high.number number).mp less).le.trans below
      · exact below
    · exact below
  unfold constrain
  dsimp only
  generalize (if IsSet maximum then min value maximum else value) = size at capped
  split
  · rename_i set
    rw [Single.max_def]
    split
    · exact low set
    · split
      · exact low set
      · exact capped
  · exact capped

end BoxLayout
