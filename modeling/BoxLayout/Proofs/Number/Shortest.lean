import Mathlib.Algebra.Order.Field.Power
import BoxLayout.Proofs.Number.Midpoint
import BoxLayout.Proofs.Number.Numeral

namespace BoxLayout
open Number

-- What the digits of a number are worth, and how near they come to it: less than one in
-- the last place, and nine of them are always enough.

namespace Decimal
variable {d : Decimal} {quanta n k : Nat}

def value (d : Decimal) : ℚ := d.coefficient * 10 ^ d.exponent

theorem zpow_eq_div (exponent : Int) : (10 : ℚ) ^ exponent = 10 ^ exponent.toNat / 10 ^ (-exponent).toNat := by
  cases exponent with
  | ofNat n => simp
  | negSucc n => simp [zpow_negSucc]

theorem zpow_split {whole part : Int} {places : Nat} (split : whole = places + part) : (10 : ℚ) ^ whole = 10 ^ places * 10 ^ part := by
  rw [split,zpow_add₀ (by norm_num),zpow_natCast]

theorem value_eq (d : Decimal) : d.value = d.numerator / d.denominator := by
  unfold value numerator denominator
  rw [zpow_eq_div]
  push_cast
  exact (mul_div_assoc ..).symm

theorem denominator_pos (d : Decimal) : 0 < d.denominator := Nat.pow_pos (by decide)

theorem ofDigits_append (front back : List Char) :
    ofDigits (front ++ back) = ofDigits front * 10 ^ back.length + ofDigits back := by
  have joined : ofDigits (front ++ back) = Nat.ofDigitChars 10 back (ofDigits front) := Nat.ofDigitChars_append 0
  rw [joined,Nat.ofDigitChars_eq_ofDigitChars_zero,Nat.mul_comm]
  rfl

theorem ofDigits_zeros (k : Nat) : ofDigits (List.replicate k '0') = 0 :=
  Nat.ofDigitChars_replicate_zero

theorem length_digits_le (some : 0 < k) : (digits n).length ≤ k ↔ n < 10 ^ k :=
  Nat.length_toDigits_le_iff (by decide) some

theorem length_digits_pos : 0 < (digits n).length := Nat.length_toDigits_pos

theorem lt_pow_length (n : Nat) : n < 10 ^ (digits n).length :=
  (length_digits_le length_digits_pos).mp (Nat.le_refl _)

theorem pow_le_of_length (positive : 0 < n) : 10 ^ ((digits n).length - 1) ≤ n := by
  rcases Nat.eq_zero_or_pos ((digits n).length - 1) with one | more
  · rw [one]
    exact positive
  · refine Nat.le_of_not_lt fun less => ?_
    have short := (length_digits_le more).mpr less
    omega

theorem roundSignificant_of_readsBack (positive : 0 < quanta) (back : Digits.ReadsBack quanta d) :
    roundSignificant Format.single.precision (d.numerator * 2 ^ Format.single.scale) d.denominator = quanta := by
  unfold Digits.ReadsBack units? at back
  split at back
  · cases back
    cases positive
  split at back
  · cases back
  dsimp only at back
  split at back
  · exact Option.some.inj back
  · cases back

theorem quanta_of_value (d : Decimal) {scale : Nat} : ((d.numerator * 2 ^ scale : Nat) / d.denominator : ℚ) = d.value * 2 ^ scale := by
  rw [value_eq]
  push_cast
  ring

-- However a quotient is written, it is rounded as the decimal worth as much.
theorem roundSignificant_of_value {precision scale numerator denominator : Nat} (positive : 0 < denominator)
    (worth : (numerator / denominator : ℚ) = d.value * 2 ^ scale) :
    roundSignificant precision numerator denominator = roundSignificant precision (d.numerator * 2 ^ scale) d.denominator := by
  refine roundSignificant_congr positive d.denominator_pos ?_
  rw [← quanta_of_value,div_eq_div_iff (by exact_mod_cast Nat.ne_of_gt positive) (by exact_mod_cast Nat.ne_of_gt d.denominator_pos)] at worth
  exact_mod_cast worth

theorem roundSignificant_of_near {numerator denominator : Nat} {value : ℚ} (fits : Fits Format.single.precision quanta)
    (positive : 0 < denominator) (worth : (numerator / denominator : ℚ) = value * 2 ^ Format.single.scale)
    (near : |value - quanta / 2 ^ Format.single.scale| < quanta / 2 ^ Format.single.scale / 2 ^ 25) :
    roundSignificant Format.single.precision numerator denominator = quanta := by
  refine roundSignificant_near fits (by decide) positive ?_
  have unit : (0 : ℚ) < 2 ^ Format.single.scale := by positivity
  have whole : (quanta : ℚ) = quanta / 2 ^ Format.single.scale * 2 ^ Format.single.scale := (div_mul_cancel₀ _ (ne_of_gt unit)).symm
  rw [worth,whole,← sub_mul,abs_mul,abs_of_pos unit,mul_div_right_comm]
  exact mul_lt_mul_of_pos_right near unit

theorem readsBack_of_near (fits : Representable quanta) (some : 0 < d.coefficient) (low : -farthest ≤ d.top)
    (high : d.top ≤ farthest) (near : |d.value - quanta / 2 ^ Format.single.scale| < quanta / 2 ^ Format.single.scale / 2 ^ 25) :
    Digits.ReadsBack quanta d := by
  have rounded := roundSignificant_of_near fits.2 d.denominator_pos d.quanta_of_value near
  unfold Digits.ReadsBack units?
  dsimp only
  rw [if_neg (by omega),if_neg (by omega),rounded,if_pos fits.1]

end Decimal

namespace Digits
open Decimal
variable {quanta count : Nat} {tie : Tie} {d : Decimal}

def value (d : Digits) : ℚ := ofDigits d.digits * 10 ^ (d.point - d.digits.length)

theorem exists_stripped (d : Decimal) : ∃ zeros : Nat, d.coefficient = ofDigits (ofDecimal d).digits * 10 ^ zeros ∧
    (ofDecimal d).point - (ofDecimal d).digits.length = d.exponent + zeros := by
  let all := Decimal.digits d.coefficient
  let zeros := all.reverse.takeWhile fun c => decide (c = '0')
  have same : zeros = List.replicate zeros.length '0' :=
    List.eq_replicate_of_mem fun c member => by simpa using List.mem_takeWhile_imp member
  have parts : all = (ofDecimal d).digits ++ List.replicate zeros.length '0' := by
    have joined := congrArg List.reverse (List.takeWhile_append_dropWhile (p := fun c => decide (c = '0')) (l := all.reverse))
    rw [List.reverse_append,List.reverse_reverse] at joined
    rw [← List.reverse_replicate,← same]
    exact joined.symm
  refine ⟨zeros.length,?_,?_⟩
  · rw [← ofDigits_digits d.coefficient]
    change ofDigits all = _
    rw [parts,ofDigits_append,ofDigits_zeros,List.length_replicate,Nat.add_zero]
  · have length := congrArg List.length parts
    rw [List.length_append,List.length_replicate] at length
    change (all.length + d.exponent : Int) - _ = _
    omega

theorem value_ofDecimal (d : Decimal) : (ofDecimal d).value = d.value := by
  obtain ⟨zeros,coefficient,exponent⟩ := exists_stripped d
  rw [value,Decimal.value,coefficient,exponent,zpow_split (Int.add_comm ..)]
  push_cast
  ring

-- Fifty places reach the least quantum.
theorem exists_length (positive : 0 < quanta) : ∃ length : Nat, power quanta = length - 50 ∧ 5 < length ∧
    10 ^ (length - 1) * 2 ^ Format.single.scale ≤ quanta * 10 ^ 50 ∧ quanta * 10 ^ 50 < 10 ^ length * 2 ^ Format.single.scale := by
  have least : 10 ^ 5 ≤ quanta * 10 ^ 50 / 2 ^ Format.single.scale :=
    calc 10 ^ 5 ≤ 1 * 10 ^ 50 / 2 ^ Format.single.scale := by decide
      _ ≤ _ := Nat.div_le_div_right (Nat.mul_le_mul_right _ positive)
  refine ⟨_,rfl,Nat.lt_of_not_le fun short => ?_,(Nat.le_div_iff_mul_le (Nat.two_pow_pos _)).mp (pow_le_of_length ?_),
    (Nat.div_lt_iff_lt_mul (Nat.two_pow_pos _)).mp (lt_pow_length _)⟩
  · exact Nat.not_lt_of_le least ((length_digits_le (by decide)).mp short)
  · exact Nat.lt_of_lt_of_le (by decide) least

theorem power_bounds (positive : 0 < quanta) : (10 : ℚ) ^ (power quanta - 1) ≤ quanta / 2 ^ Format.single.scale ∧
    (quanta / 2 ^ Format.single.scale : ℚ) < 10 ^ power quanta := by
  obtain ⟨length,is,long,low,high⟩ := exists_length positive
  have cut : (10 : ℚ) ^ (power quanta - 1) = 10 ^ (length - 1) / 10 ^ 50 := by
    rw [eq_div_iff (by positivity),mul_comm,← zpow_natCast 10 (length - 1)]
    exact (zpow_split (by omega)).symm
  have whole : (10 : ℚ) ^ power quanta = 10 ^ length / 10 ^ 50 := by
    rw [eq_div_iff (by positivity),mul_comm,← zpow_natCast 10 length]
    exact (zpow_split (by omega)).symm
  rw [cut,whole,div_le_div_iff₀ (by positivity) (by positivity),div_lt_div_iff₀ (by positivity) (by positivity)]
  exact ⟨by exact_mod_cast low,by exact_mod_cast high⟩

theorem power_range (positive : 0 < quanta) (bounded : quanta < Format.single.limit) : -45 < power quanta ∧ power quanta < 40 := by
  obtain ⟨length,is,long,low,_⟩ := exists_length positive
  have less : 10 ^ (length - 1) < 10 ^ 89 := by
    refine Nat.lt_of_mul_lt_mul_right (Nat.lt_of_le_of_lt low ?_)
    calc quanta * 10 ^ 50 < Format.single.limit * 10 ^ 50 := Nat.mul_lt_mul_of_pos_right bounded (by decide)
      _ ≤ 10 ^ 89 * 2 ^ Format.single.scale := by decide
  have short := (Nat.pow_lt_pow_iff_right (by decide)).mp less
  omega

structure Close (quanta count : Nat) (d : Decimal) : Prop where
  exponent : d.exponent = power quanta - count
  least : 10 ^ (count - 1) ≤ d.coefficient
  most : d.coefficient ≤ 10 ^ count
  close : |d.value - quanta / 2 ^ Format.single.scale| ≤ 10 ^ d.exponent

theorem neighbour_distance {coefficient numerator denominator : Nat} (below : 0 < denominator)
    (near : coefficient = numerator / denominator ∨ coefficient = numerator / denominator + 1) :
    |(coefficient - numerator / denominator : ℚ)| ≤ 1 := by
  have below' : (0 : ℚ) < denominator := by exact_mod_cast below
  have split := Nat.div_add_mod numerator denominator
  have rest := Nat.mod_lt numerator below
  have between : coefficient * denominator ≤ numerator + denominator ∧ numerator ≤ coefficient * denominator + denominator := by
    rw [Nat.mul_comm coefficient]
    rcases near with rfl | rfl
    · omega
    · rw [Nat.mul_succ]
      omega
  have high : (coefficient * denominator : ℚ) ≤ numerator + denominator := by exact_mod_cast between.1
  have low : (numerator : ℚ) ≤ coefficient * denominator + denominator := by exact_mod_cast between.2
  rw [sub_div' (ne_of_gt below'),abs_div,abs_of_pos below',div_le_one below',abs_le]
  constructor <;> linarith

theorem close_of_neighbour (positive : 0 < quanta) (some : 0 < count) {exponent : Int} (is : exponent = power quanta - count)
    {coefficient numerator denominator : Nat} (upper : numerator = quanta * 10 ^ (-exponent).toNat)
    (lower : denominator = 2 ^ Format.single.scale * 10 ^ exponent.toNat)
    (near : coefficient = numerator / denominator ∨ coefficient = numerator / denominator + 1) :
    Close quanta count ⟨coefficient,exponent⟩ := by
  have below : 0 < denominator := by
    rw [lower]
    positivity
  have below' : (0 : ℚ) < denominator := by exact_mod_cast below
  have unit : (0 : ℚ) < 10 ^ exponent := by positivity
  have ratio : (quanta / 2 ^ Format.single.scale : ℚ) = numerator / denominator * 10 ^ exponent := by
    rw [zpow_eq_div,upper,lower]
    push_cast
    field_simp
  obtain ⟨low,high⟩ := power_bounds positive
  rw [ratio,@zpow_split (power quanta - 1) exponent (count - 1) (by omega),mul_le_mul_iff_left₀ unit,le_div_iff₀ below'] at low
  rw [ratio,@zpow_split (power quanta) exponent count (by omega),mul_lt_mul_iff_left₀ unit,div_lt_iff₀ below'] at high
  have floor := (Nat.le_div_iff_mul_le below).mpr (by exact_mod_cast low : 10 ^ (count - 1) * denominator ≤ numerator)
  have ceiling := (Nat.div_lt_iff_lt_mul below).mpr (by exact_mod_cast high : numerator < 10 ^ count * denominator)
  refine ⟨is,?_,?_,?_⟩
  · dsimp only
    omega
  · dsimp only
    omega
  · rw [ratio,Decimal.value,← sub_mul,abs_mul,abs_of_pos unit]
    exact mul_le_of_le_one_left (le_of_lt unit) (neighbour_distance below near)

theorem close_onGrid? (positive : 0 < quanta) (some : 0 < count) (found : onGrid? tie quanta count = .some d) : Close quanta count d := by
  unfold onGrid? at found
  dsimp only at found
  split at found
  · split at found <;> cases found
    · exact close_of_neighbour positive some rfl rfl rfl (.inr rfl)
    · exact close_of_neighbour positive some rfl rfl rfl (.inl rfl)
  · split at found <;> cases found
    exact close_of_neighbour positive some rfl rfl rfl (.inr rfl)

theorem Close.relative (close : Close quanta count d) (positive : 0 < quanta) (some : 0 < count) :
    |d.value - quanta / 2 ^ Format.single.scale| ≤ quanta / 2 ^ Format.single.scale / 10 ^ (count - 1) := by
  refine le_trans close.close ?_
  rw [le_div_iff₀ (by positivity),mul_comm,close.exponent,← @zpow_split (power quanta - 1) _ _ (by omega)]
  exact (power_bounds positive).1

theorem Close.readsBack (close : Close quanta 9 d) (representable : Representable quanta) (positive : 0 < quanta) : ReadsBack quanta d := by
  obtain ⟨low,high⟩ := power_range positive representable.1
  have some : 0 < d.coefficient := Nat.lt_of_lt_of_le (by decide) close.least
  have few : (Decimal.digits d.coefficient).length ≤ 10 :=
    (length_digits_le (by decide)).mpr (Nat.lt_of_le_of_lt close.most (by decide))
  have exponent := close.exponent
  refine readsBack_of_near representable some ?_ ?_ (lt_of_le_of_lt (close.relative positive (by decide)) ?_)
  · unfold top farthest
    omega
  · unfold top farthest
    omega
  · refine div_lt_div_of_pos_left (by positivity) (by norm_num) (by norm_num)

theorem shortest_close (tie : Tie) (representable : Representable quanta) (positive : 0 < quanta) :
    ∃ count d, 0 < count ∧ count ≤ 9 ∧ shortest tie quanta = ofDecimal d ∧ ReadsBack quanta d ∧ Close quanta count d := by
  unfold shortest
  cases found : (List.range' 1 9).findSome? (onGrid? tie quanta) with
  | none =>
      have nine := List.findSome?_eq_none_iff.mp found 9 (by decide)
      unfold onGrid? at nine
      dsimp only at nine
      rw [if_pos ((close_of_neighbour positive (by decide) rfl rfl rfl (.inl rfl)).readsBack representable positive)] at nine
      split at nine <;> cases nine
  | some d =>
      obtain ⟨count,listed,here⟩ := List.exists_of_findSome?_eq_some found
      obtain ⟨some,most⟩ := List.mem_range'_1.mp listed
      exact ⟨count,d,some,by omega,rfl,readsBack_onGrid? here,close_onGrid? positive some here⟩

end Digits
end BoxLayout
