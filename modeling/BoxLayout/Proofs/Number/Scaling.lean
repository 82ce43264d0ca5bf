import Mathlib.Tactic.FieldSimp
import BoxLayout.Number.Scaling
import BoxLayout.Proofs.Number.Shortest

namespace BoxLayout.Number.Double
open Decimal

-- How far the quick way leads from the number spelled: a power of ten is rounded, then a
-- product or a quotient with it. Where powers and result need no rounding it is exact.

variable {significand power m : Nat}

theorem fits_pow_ten (few : power ≤ 22) : Fits Format.double.precision (10 ^ power) := by
  refine ⟨5 ^ power,power,Nat.lt_of_le_of_lt (Nat.pow_le_pow_right (by decide) few) (by decide),?_⟩
  rw [← Nat.mul_pow]

theorem ofNat_eq (fits : Fits Format.double.precision m) : ofNat m = m * 2 ^ Format.double.scale := by
  obtain ⟨s,e,small,rfl⟩ := fits
  refine roundSignificant_of_fits ⟨s,e + Format.double.scale,small,?_⟩ (by decide)
  rw [Nat.pow_add,Nat.mul_assoc]

theorem ofNat_small (few : m < 2 ^ 53) : ofNat m = m * 2 ^ Format.double.scale :=
  ofNat_eq ⟨m,0,few,(Nat.mul_one m).symm⟩

theorem tenTo_error (power : Nat) : |(tenTo power : ℚ) - 10 ^ power * 2 ^ Format.double.scale| ≤
    10 ^ power * 2 ^ Format.double.scale / 2 ^ 53 := by
  have error := @roundSignificant_error Format.double.precision (10 ^ power * 2 ^ Format.double.scale) 1 Nat.one_pos (by decide)
  rw [if_pos rfl,Nat.cast_one,div_one,add_zero] at error
  push_cast at error
  exact error

theorem close_of_steps {value rounded result : ℚ} (large : 2 ^ 200 ≤ value)
    (first : |rounded - value| ≤ value / 2 ^ 53 ∨ |rounded - value| ≤ rounded / 2 ^ 53)
    (second : |result - rounded| ≤ rounded / 2 ^ 53 + 1 / 2) : |result - value| * (2 ^ 52 - 1) ≤ value := by
  rw [← abs_of_pos (by norm_num : (0 : ℚ) < 2 ^ 52 - 1),← abs_mul,abs_le]
  rw [abs_le] at second
  rcases first with first | first <;> rw [abs_le] at first <;> constructor <;> linarith

theorem scale_large (near : power ≤ 100) : (2 : ℚ) ^ 200 * 10 ^ power ≤ 2 ^ Format.double.scale :=
  calc (2 : ℚ) ^ 200 * 10 ^ power ≤ 2 ^ 200 * (2 ^ 4) ^ power := by
        gcongr
        norm_num
    _ = 2 ^ (200 + 4 * power) := by rw [pow_add,pow_mul]
    _ ≤ 2 ^ Format.double.scale := by
        refine pow_le_pow_right₀ one_le_two ?_
        have scale : Format.double.scale = 1074 := rfl
        omega

theorem product_close (some : 0 < significand) (few : significand < 2 ^ 53) :
    |(nearest (ofNat significand * tenTo power) (2 ^ Format.double.scale) - significand * 10 ^ power * 2 ^ Format.double.scale : ℚ)| *
      (2 ^ 52 - 1) ≤ significand * 10 ^ power * 2 ^ Format.double.scale := by
  have some' : (1 : ℚ) ≤ significand := by exact_mod_cast some
  have error := @roundSignificant_error Format.double.precision (ofNat significand * tenTo power) (2 ^ Format.double.scale)
    (Nat.two_pow_pos _) (by decide)
  have ratio : ((ofNat significand * tenTo power : Nat) : ℚ) / (2 ^ Format.double.scale : Nat) = significand * tenTo power := by
    rw [ofNat_small few]
    push_cast
    field_simp
  rw [ratio,if_neg (Nat.ne_of_gt (Nat.one_lt_two_pow (by decide)))] at error
  refine close_of_steps ?_ (.inl ?_) error
  · have one : (1 : ℚ) ≤ 10 ^ power := one_le_pow₀ (by norm_num)
    calc (2 : ℚ) ^ 200 ≤ 2 ^ Format.double.scale := pow_le_pow_right₀ (by norm_num) (by decide)
      _ ≤ significand * 10 ^ power * 2 ^ Format.double.scale := le_mul_of_one_le_left (by positivity) (one_le_mul_of_one_le_of_one_le some' one)
  · rw [mul_assoc,← mul_sub,abs_mul,abs_of_pos (lt_of_lt_of_le one_pos some'),mul_div_assoc]
    exact mul_le_mul_of_nonneg_left (tenTo_error power) (le_of_lt (lt_of_lt_of_le one_pos some'))

theorem quotient_close (some : 0 < significand) (few : significand < 2 ^ 53) (near : power ≤ 100) :
    |(quotient (ofNat significand) (tenTo power) - significand / 10 ^ power * 2 ^ Format.double.scale : ℚ)| * (2 ^ 52 - 1) ≤
      significand / 10 ^ power * 2 ^ Format.double.scale := by
  have some' : (1 : ℚ) ≤ significand := by exact_mod_cast some
  have factor := tenTo_error power
  have whole : (0 : ℚ) < 10 ^ power * 2 ^ Format.double.scale := by positivity
  have positive : (0 : ℚ) < tenTo power := by
    rw [abs_le] at factor
    linarith
  have error := @roundSignificant_error Format.double.precision (ofNat significand * 2 ^ Format.double.scale) (tenTo power)
    (by exact_mod_cast positive) (by decide)
  have none : (if tenTo power = 1 then 0 else 1 / 2 : ℚ) ≤ 1 / 2 := by split <;> norm_num
  refine close_of_steps ?_ (.inr ?_) (le_trans error (add_le_add_right none _))
  · rw [div_mul_eq_mul_div,le_div_iff₀ (by positivity)]
    exact le_trans (scale_large near) (le_mul_of_one_le_left (by positivity) some')
  · -- The quotient misses by the same part of itself as the power of ten of its own.
    have ratio : ((ofNat significand * 2 ^ Format.double.scale : Nat) / tenTo power - significand / 10 ^ power * 2 ^ Format.double.scale : ℚ) =
        (ofNat significand * 2 ^ Format.double.scale : Nat) / tenTo power *
          ((10 ^ power * 2 ^ Format.double.scale - tenTo power) / (10 ^ power * 2 ^ Format.double.scale)) := by
      rw [ofNat_small few]
      push_cast
      field_simp
    have nonneg : (0 : ℚ) ≤ (ofNat significand * 2 ^ Format.double.scale : Nat) / tenTo power :=
      div_nonneg (Nat.cast_nonneg _) (le_of_lt positive)
    rw [ratio,abs_mul,abs_of_nonneg nonneg,abs_div,abs_of_pos whole,abs_sub_comm,div_eq_mul_one_div _ ((2 : ℚ) ^ 53)]
    refine mul_le_mul_of_nonneg_left ?_ nonneg
    rw [div_le_iff₀ whole,div_mul_eq_mul_div,one_mul]
    exact factor

theorem fits_two_pow (k : Nat) : Fits Format.double.precision (2 ^ k) :=
  ⟨1,k,by decide,(Nat.one_mul _).symm⟩

theorem tenTo_le (power : Nat) : tenTo power ≤ 2 ^ (4 * power + Format.double.scale) := by
  refine roundSignificant_le (fits_two_pow _) ?_
  rw [Nat.mul_one,Nat.pow_add,Nat.pow_mul]
  exact Nat.mul_le_mul_right _ (Nat.pow_le_pow_left (by decide) power)

theorem scaleUp?_eq (few : significand < 2 ^ 53) (near : power ≤ 100) :
    scaleUp? (ofNat significand) power = some (nearest (ofNat significand * tenTo power) (2 ^ Format.double.scale)) := by
  have product : nearest (ofNat significand * tenTo power) (2 ^ Format.double.scale) ≤ 2 ^ (53 + (4 * power + Format.double.scale)) := by
    refine roundSignificant_le (fits_two_pow _) ?_
    rw [ofNat_small few,Nat.mul_right_comm,Nat.pow_add]
    exact Nat.mul_le_mul_right _ (Nat.mul_le_mul (Nat.le_of_lt few) (tenTo_le power))
  have bounded : nearest (ofNat significand * tenTo power) (2 ^ Format.double.scale) < Format.double.limit := by
    refine Nat.lt_of_le_of_lt product ?_
    rw [Format.Binary.limit,← Nat.pow_add]
    refine Nat.pow_lt_pow_right (by decide) ?_
    have range : Format.double.range = 1024 := rfl
    omega
  unfold scaleUp? product? lastPower
  rw [if_pos (by omega),if_pos bounded]

theorem scaleDown_eq (quanta : Nat) (near : power ≤ 100) : scaleDown quanta power = quotient quanta (tenTo power) := by
  rw [scaleDown,if_pos (by unfold lastPower; omega)]

theorem unscale {y value : ℚ} (close : |y - value * 2 ^ Format.double.scale| * (2 ^ 52 - 1) ≤ value * 2 ^ Format.double.scale) :
    |y / 2 ^ Format.double.scale - value| * (2 ^ 52 - 1) ≤ value := by
  have unit : (0 : ℚ) < 2 ^ Format.double.scale := by positivity
  rw [← mul_le_mul_iff_left₀ unit,mul_right_comm,← abs_of_pos unit,← abs_mul,abs_of_pos unit,sub_mul,div_mul_cancel₀ _ (ne_of_gt unit)]
  exact close

theorem scaled?_close {d : Decimal} (some : 0 < d.coefficient) (few : d.coefficient < 2 ^ 53) (near : d.exponent.natAbs ≤ 100) :
    ∃ y, scaled? d.coefficient d.exponent = .some y ∧ |(y / 2 ^ Format.double.scale - d.value : ℚ)| * (2 ^ 52 - 1) ≤ d.value := by
  obtain ⟨coefficient,exponent⟩ := d
  cases exponent with
  | ofNat power =>
      refine ⟨_,scaleUp?_eq few near,unscale ?_⟩
      have value : Decimal.value ⟨coefficient,.ofNat power⟩ = coefficient * 10 ^ power := by simp [Decimal.value]
      rw [value]
      exact product_close some few
  | negSucc power =>
      refine ⟨_,congrArg Option.some (scaleDown_eq _ near),unscale ?_⟩
      have value : Decimal.value ⟨coefficient,.negSucc power⟩ = coefficient / 10 ^ (power + 1) := by
        simp [Decimal.value,zpow_negSucc,div_eq_mul_inv]
      rw [value]
      exact quotient_close some few near

theorem scaled?_exact {d : Decimal} (few : d.coefficient < 2 ^ 53) (near : d.exponent.natAbs ≤ 22)
    (fits : Fits Format.double.precision m) (worth : d.value * 2 ^ Format.double.scale = m) : scaled? d.coefficient d.exponent = some m := by
  have precise : 0 < Format.double.precision := by decide
  obtain ⟨coefficient,exponent⟩ := d
  cases exponent with
  | ofNat power =>
      change power ≤ 22 at near
      have is : m = coefficient * 10 ^ power * 2 ^ Format.double.scale := by
        simp only [Decimal.value,Int.ofNat_eq_natCast,zpow_natCast] at worth
        exact_mod_cast worth.symm
      refine (scaleUp?_eq few (Nat.le_trans near (by decide))).trans (congrArg some ?_)
      rw [nearest,← roundSignificant_of_fits fits precise,is,ofNat_small few,tenTo,ofNat_eq (fits_pow_ten near)]
      refine roundSignificant_congr (Nat.two_pow_pos _) Nat.one_pos ?_
      ring
  | negSucc power =>
      change power + 1 ≤ 22 at near
      have is : coefficient * 2 ^ Format.double.scale = m * 10 ^ (power + 1) := by
        simp only [Decimal.value,zpow_negSucc] at worth
        rw [mul_right_comm,← div_eq_mul_inv,div_eq_iff (by positivity)] at worth
        exact_mod_cast worth
      refine congrArg some ((scaleDown_eq _ (Nat.le_trans near (by decide))).trans ?_)
      rw [quotient,nearest,← roundSignificant_of_fits fits precise,ofNat_small few,tenTo,ofNat_eq (fits_pow_ten near)]
      refine roundSignificant_congr (Nat.mul_pos (Nat.pow_pos (by decide)) (Nat.two_pow_pos _)) Nat.one_pos ?_
      rw [Nat.mul_one,is,Nat.mul_assoc]

theorem units?_eq {d : Decimal} (some : 0 < d.coefficient) (few : d.coefficient < 2 ^ 53) (near : d.exponent.natAbs ≤ 100) :
    d.units? Format.double = .some (nearest (d.numerator * 2 ^ Format.double.scale) d.denominator) := by
  have length : (digits d.coefficient).length ≤ 16 := (length_digits_le (by decide)).mpr (Nat.lt_trans few (by decide))
  have top : d.top = (digits d.coefficient).length + d.exponent := rfl
  have small : d.numerator ≤ 2 ^ (53 + 4 * d.exponent.toNat) := by
    rw [Nat.pow_add,Nat.pow_mul]
    exact Nat.mul_le_mul (Nat.le_of_lt few) (Nat.pow_le_pow_left (by decide) _)
  have bounded : nearest (d.numerator * 2 ^ Format.double.scale) d.denominator < Format.double.limit := by
    have most : nearest (d.numerator * 2 ^ Format.double.scale) d.denominator ≤ 2 ^ (53 + 4 * d.exponent.toNat + Format.double.scale) := by
      refine roundSignificant_le (fits_two_pow _) ?_
      rw [Nat.pow_add _ _ Format.double.scale]
      exact (Nat.mul_le_mul_right _ small).trans (Nat.le_mul_of_pos_right _ d.denominator_pos)
    refine Nat.lt_of_le_of_lt most ?_
    rw [Format.Binary.limit,← Nat.pow_add]
    refine Nat.pow_lt_pow_right (by decide) ?_
    have range : Format.double.range = 1024 := rfl
    omega
  unfold units? farthest
  rw [if_neg (by omega),if_neg (by omega)]
  exact if_pos bounded

theorem units?_close {d : Decimal} (some : 0 < d.coefficient) (few : d.coefficient < 2 ^ 53) (near : d.exponent.natAbs ≤ 100) :
    ∃ y, d.units? Format.double = .some y ∧ |(y / 2 ^ Format.double.scale - d.value : ℚ)| * (2 ^ 52 - 1) ≤ d.value := by
  refine ⟨_,units?_eq some few near,unscale ?_⟩
  have error := @roundSignificant_error Format.double.precision (d.numerator * 2 ^ Format.double.scale) d.denominator
    d.denominator_pos (by decide)
  have none : (if d.denominator = 1 then 0 else 1 / 2 : ℚ) ≤ 1 / 2 := by split <;> norm_num
  have large : (2 : ℚ) ^ 200 ≤ d.value * 2 ^ Format.double.scale := by
    have below : (0 : ℚ) < d.denominator := by exact_mod_cast d.denominator_pos
    have some' : (1 : ℚ) ≤ d.numerator := by exact_mod_cast Nat.mul_pos some (Nat.pow_pos (by decide))
    have range : (2 : ℚ) ^ 200 * d.denominator ≤ 2 ^ Format.double.scale := by
      have scale := @scale_large (-d.exponent).toNat (by omega)
      exact_mod_cast scale
    rw [value_eq,div_mul_eq_mul_div,le_div_iff₀ below]
    exact range.trans (le_mul_of_one_le_left (by positivity) some')
  rw [quanta_of_value] at error
  refine close_of_steps large (.inl ?_) (le_trans error (add_le_add_right none _))
  rw [sub_self,abs_zero]
  exact div_nonneg ((by positivity : (0 : ℚ) ≤ 2 ^ 200).trans large) (by positivity)

theorem units?_exact {d : Decimal} (some : 0 < d.coefficient) (few : d.coefficient < 2 ^ 53) (near : d.exponent.natAbs ≤ 100)
    (fits : Fits Format.double.precision m) (worth : d.value * 2 ^ Format.double.scale = m) : d.units? Format.double = .some m := by
  have whole : (m / (1 : Nat) : ℚ) = d.value * 2 ^ Format.double.scale := by rw [worth,Nat.cast_one,div_one]
  rw [units?_eq some few near,nearest,← roundSignificant_of_value Nat.one_pos whole,roundSignificant_of_fits fits (by decide)]

def narrow (y : Nat) : Nat := roundSignificant Format.single.precision y (2 ^ (Format.double.scale - Format.single.scale))

theorem quanta_of_double (y : Nat) : (y / (2 ^ (Format.double.scale - Format.single.scale) : Nat) : ℚ) =
    y / 2 ^ Format.double.scale * 2 ^ Format.single.scale := by
  rw [← pow_sub_mul_pow (2 : ℚ) (by decide : Format.single.scale ≤ Format.double.scale),Nat.cast_pow,Nat.cast_two]
  field_simp

end BoxLayout.Number.Double
