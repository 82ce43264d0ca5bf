import BoxLayout.Proofs.Number.Fractions
import BoxLayout.Proofs.Number.Scaling
import BoxLayout.Proofs.Snapshot.Reread

namespace BoxLayout
open Number

-- Every finite number survives being written and read back, and all but one by way of the
-- nearest double as well. Nine digits are near enough to it for both roundings. Fewer go
-- astray only where a point half way between two singles is nearly a number of eight digits,
-- and the few such points are tried one by one.

namespace Single

-- The nearest double to these digits is half way to the next single, which is even.
def stray (negative : Bool) : Single := .ofRatio negative 7038531 100000000000000000000000000000000

def Tried (x : Single) : Prop := x.Survives ∧ (x.SurvivesNearest ∨ x = stray false)

instance (x : Single) : Decidable x.Tried := inferInstanceAs (Decidable (_ ∧ _))

end Single

namespace Number.Halfway

-- Eight digits of a number that has so many digits down to fifty places count units of
-- 10 ^ (length - 58), each of them top / bottom halves of a quantum.
def top (length : Nat) : Nat := 2 ^ 150 * 10 ^ (length - 58)
def bottom (length : Nat) : Nat := 10 ^ (58 - length)

def parts : Nat := 2 ^ 52 - 1

-- Significands of points half way, each over the digits that are as near as a double to it.
def window (length dropped : Nat) : Window where
  scale := bottom length * 2 ^ dropped * parts
  low := top length * (parts - 1)
  high := top length * (parts + 1)
  mostTop := 2 ^ 25
  mostBottom := 10 ^ 8

-- The digits are the point itself, of a size where the double is exact, or whatever has them
-- was tried; the multiples of the fraction are no points when they are even.
def Harmless (length dropped : Nat) (f : Fraction) : Prop :=
  (f.top * (bottom length * 2 ^ dropped) = f.bottom * top length ∧ 47 ≤ length ∧ length ≤ 69) ∨
    ∀ k ∈ List.range' 1 (10 ^ 8 / f.bottom), k * f.top % 2 = 1 →
      (Single.ofQuanta false (k * f.bottom * top length) (2 * bottom length)).Tried

instance (length dropped : Nat) (f : Fraction) : Decidable (Harmless length dropped f) := inferInstanceAs (Decidable (_ ∨ _))

def drops (length : Nat) : List Nat := List.range' ((10 ^ 7 * top length / bottom length).log2 - 26) 8

theorem harmless : ∀ length ∈ List.range' 6 84, ∀ dropped ∈ drops length,
    (window length dropped).accepts (Harmless length dropped) 13 ⟨0,1⟩ ⟨1,0⟩ = true := by
  decide +kernel

variable {length significand dropped c : Nat}

structure Near (length significand dropped c : Nat) : Prop where
  normal : Normal Format.single.precision significand dropped
  least : 10 ^ 7 ≤ c
  most : c ≤ 10 ^ 8
  low : c * top length * (parts - 1) ≤ (2 * significand + 1) * 2 ^ dropped * bottom length * parts
  high : (2 * significand + 1) * 2 ^ dropped * bottom length * parts ≤ c * top length * (parts + 1)

theorem Near.holds (near : Near length significand dropped c) : (window length dropped).Holds ⟨2 * significand + 1,c⟩ where
  some := Nat.lt_of_lt_of_le (by decide) near.least
  low := by
    refine Nat.not_lt_of_le ?_
    calc c * (top length * (parts - 1)) = c * top length * (parts - 1) := (Nat.mul_assoc ..).symm
      _ ≤ (2 * significand + 1) * 2 ^ dropped * bottom length * parts := near.low
      _ = (2 * significand + 1) * (bottom length * 2 ^ dropped * parts) := by ac_rfl
  high := by
    refine Nat.not_lt_of_le ?_
    calc (2 * significand + 1) * (bottom length * 2 ^ dropped * parts) = (2 * significand + 1) * 2 ^ dropped * bottom length * parts := by ac_rfl
      _ ≤ c * top length * (parts + 1) := near.high
      _ = c * (top length * (parts + 1)) := Nat.mul_assoc ..
  few := by
    rintro (more | more)
    · have small : significand < 2 ^ 24 := near.normal.small
      change 2 ^ 25 < 2 * significand + 1 at more
      omega
    · exact absurd near.most (Nat.not_le_of_lt more)

theorem bottom_pos (length : Nat) : 0 < bottom length := Nat.pow_pos (by decide)

theorem Near.within (near : Near length significand dropped c) :
    c * top length ≤ 2 * ((2 * significand + 1) * 2 ^ dropped * bottom length) ∧
      (2 * significand + 1) * 2 ^ dropped * bottom length ≤ 2 * (c * top length) := by
  have low := near.low
  have high := near.high
  generalize c * top length = digits at low high ⊢
  generalize (2 * significand + 1) * 2 ^ dropped * bottom length = point at low high ⊢
  unfold parts at low high
  omega

theorem Near.mem_drops (near : Near length significand dropped c) : dropped ∈ drops length := by
  obtain ⟨low,high⟩ := near.within
  have first := Nat.mul_le_mul_right (top length) near.least
  have last : c * top length ≤ 10 * (10 ^ 7 * top length) := by
    rw [← Nat.mul_assoc]
    exact Nat.mul_le_mul_right _ near.most
  have small : 2 * significand + 1 ≤ 2 ^ 25 := by
    have less : significand < 2 ^ 24 := near.normal.small
    omega
  have positive := bottom_pos length
  unfold drops
  rw [List.mem_range'_1]
  generalize bottom length = bottom at *
  generalize 10 ^ 7 * top length = least at *
  generalize c * top length = digits at *
  have floor := (Nat.div_lt_iff_lt_mul positive).mp (@Nat.lt_log2_self (least / bottom))
  constructor
  · refine Nat.sub_le_of_le_add ?_
    by_cases none : least / bottom = 0
    · rw [none]
      exact Nat.zero_le _
    have ceiling := (Nat.le_div_iff_mul_le positive).mp (Nat.log2_self_le none)
    refine (Nat.pow_le_pow_iff_right (by decide : 1 < 2)).mp (Nat.le_of_mul_le_mul_right ?_ positive)
    calc 2 ^ (least / bottom).log2 * bottom ≤ least := ceiling
      _ ≤ 2 * ((2 * significand + 1) * 2 ^ dropped * bottom) := Nat.le_trans first low
      _ ≤ 2 * (2 ^ 25 * 2 ^ dropped * bottom) := by gcongr
      _ = 2 ^ (dropped + 26) * bottom := by ring
  · rcases near.normal.full with none | large
    · omega
    have large' : 2 ^ 24 ≤ 2 * significand + 1 := by
      have half : 2 ^ 23 ≤ significand := large
      omega
    generalize (least / bottom).log2 = bits at *
    have less : 2 ^ (dropped + 24) < 2 ^ (bits + 6) := by
      refine Nat.lt_of_mul_lt_mul_right (?_ : _ * bottom < _ * bottom)
      calc 2 ^ (dropped + 24) * bottom = 2 ^ 24 * 2 ^ dropped * bottom := by ring
        _ ≤ (2 * significand + 1) * 2 ^ dropped * bottom := by gcongr
        _ < 32 * (2 ^ (bits + 1) * bottom) := by omega
        _ = 2 ^ (bits + 6) * bottom := by ring
    have short := (Nat.pow_lt_pow_iff_right (by decide : 1 < 2)).mp less
    omega

theorem within_parts {point digits bottom : Nat} (positive : 0 < bottom)
    (error : |(point - digits / bottom : ℚ)| * (2 ^ 52 - 1) ≤ digits / bottom) :
    digits * (parts - 1) ≤ point * bottom * parts ∧ point * bottom * parts ≤ digits * (parts + 1) := by
  have positive' : (0 : ℚ) < bottom := by exact_mod_cast positive
  have scaled : |(point * bottom - digits : ℚ)| * (2 ^ 52 - 1) ≤ digits := by
    rw [le_div_iff₀ positive',mul_right_comm,← abs_of_pos positive',← abs_mul,abs_of_pos positive',sub_mul,
      div_mul_cancel₀ _ (ne_of_gt positive')] at error
    exact error
  have below := neg_le_abs (point * bottom - digits : ℚ)
  have above := le_abs_self (point * bottom - digits : ℚ)
  have low : (digits * (2 ^ 52 - 2) : ℚ) ≤ point * bottom * (2 ^ 52 - 1) := by linarith
  have high : (point * bottom * (2 ^ 52 - 1) : ℚ) ≤ digits * 2 ^ 52 := by linarith
  norm_num at low high
  unfold parts
  norm_num
  exact ⟨by exact_mod_cast low,by exact_mod_cast high⟩

-- Where the digits are the point itself nothing is lost, elsewhere the number is one of those tried.
theorem Near.tried (near : Near length significand dropped c) (few : 6 ≤ length) (many : length < 90) :
    ((2 * significand + 1) * 2 ^ dropped * bottom length = c * top length ∧ 47 ≤ length ∧ length ≤ 69) ∨
      (Single.ofQuanta false (c * top length) (2 * bottom length)).Tried := by
  have some : 0 < c := near.holds.some
  have low : (⟨0,1⟩ : Fraction) < ⟨2 * significand + 1,c⟩ := by
    change 0 * c < (2 * significand + 1) * 1
    omega
  have high : (⟨2 * significand + 1,c⟩ : Fraction) < ⟨1,0⟩ := by
    change (2 * significand + 1) * 0 < 1 * c
    omega
  obtain ⟨f,k,accepted,multiple⟩ :=
    Window.exists_accepted (harmless length (List.mem_range'_1.mpr (by omega)) dropped near.mem_drops) near.holds rfl low high
  rw [Fraction.times,Fraction.mk.injEq] at multiple
  obtain ⟨product,rfl⟩ := multiple
  rcases of_decide_eq_true accepted with ⟨exact,sized⟩ | tried
  · refine .inl ⟨?_,sized⟩
    calc (2 * significand + 1) * 2 ^ dropped * bottom length = k * (f.top * (bottom length * 2 ^ dropped)) := by rw [product]; ac_rfl
      _ = k * f.bottom * top length := by rw [exact,Nat.mul_assoc]
  · refine .inr (tried k (List.mem_range'_1.mpr ⟨Nat.pos_of_mul_pos_right some,?_⟩) (by omega))
    have least : 0 < f.bottom := Nat.pos_of_mul_pos_left some
    exact Nat.lt_one_add_iff.mpr ((Nat.le_div_iff_mul_le least).mpr near.most)

end Number.Halfway

namespace Digits
open Decimal
variable {quanta count length significand dropped y : Nat} {d w : Decimal}

theorem Close.halves (close : Close quanta count d) (few : count ≤ 8) (is : power quanta = length - 50) :
    d.value * 2 ^ 150 = (d.coefficient * 10 ^ (8 - count) : Nat) * Halfway.top length / Halfway.bottom length := by
  have exponent := close.exponent
  have up : ((length : Int) - 58).toNat = length - 58 := by omega
  have down : (-((length : Int) - 58)).toNat = 58 - length := by omega
  rw [Decimal.value,@zpow_split d.exponent (length - 58) (8 - count) (by omega),zpow_eq_div,up,down]
  unfold Halfway.top Halfway.bottom
  push_cast
  ring

theorem Close.eight (close : Close quanta count d) (some : 0 < count) (few : count ≤ 8) :
    10 ^ 7 ≤ d.coefficient * 10 ^ (8 - count) ∧ d.coefficient * 10 ^ (8 - count) ≤ 10 ^ 8 := by
  have least : 10 ^ 7 = 10 ^ (count - 1) * 10 ^ (8 - count) := by
    rw [← Nat.pow_add]
    congr 1
    omega
  have most : 10 ^ 8 = 10 ^ count * 10 ^ (8 - count) := by
    rw [← Nat.pow_add]
    congr 1
    omega
  rw [least,most]
  exact ⟨Nat.mul_le_mul_right _ close.least,Nat.mul_le_mul_right _ close.most⟩

theorem Reads.exponent_le (reads : Reads d w) (close : Close quanta count d) : w.exponent ≤ power quanta := by
  refine (zpow_le_zpow_iff_right₀ (by norm_num : (1 : ℚ) < 10)).mp ?_
  have some : (1 : ℚ) ≤ w.coefficient := by exact_mod_cast reads.some
  have most : (d.coefficient : ℚ) ≤ 10 ^ count := by exact_mod_cast close.most
  calc (10 : ℚ) ^ w.exponent ≤ w.value := le_mul_of_one_le_left (by positivity) some
    _ = d.value := reads.value
    _ ≤ 10 ^ count * 10 ^ d.exponent := mul_le_mul_of_nonneg_right most (by positivity)
    _ = 10 ^ power quanta := by
      rw [close.exponent]
      exact (zpow_split (by omega)).symm

theorem two_pow_half : (2 : ℚ) ^ 150 = 2 * 2 ^ Format.single.scale := pow_succ' ..

variable (close : Close quanta count d) (few : count ≤ 8) (is : power quanta = length - 50)
include close

theorem Close.narrow_of_nine (nine : count = 9) (positive : 0 < quanta) (representable : Representable quanta)
    (error : |(y / 2 ^ Format.double.scale - d.value : ℚ)| * (2 ^ 52 - 1) ≤ d.value) : Double.narrow y = quanta := by
  refine roundSignificant_of_near representable.2 (Nat.two_pow_pos _) (Double.quanta_of_double y) ?_
  have relative := close.relative positive (by omega)
  rw [nine] at relative
  have some : (0 : ℚ) < quanta / 2 ^ Format.single.scale := div_pos (by exact_mod_cast positive) (by positivity)
  generalize (quanta / 2 ^ Format.single.scale : ℚ) = value at *
  generalize (y / 2 ^ Format.double.scale : ℚ) = double at *
  have triangle := abs_sub_le double d.value value
  have above := le_abs_self (d.value - value)
  linarith

include few is

-- With fewer, a point half way to another result is as near to the digits as the double.
theorem Close.exists_near (some : 0 < count) (positive : 0 < quanta) (back : ReadsBack quanta d)
    (error : |(y / 2 ^ Format.double.scale - d.value : ℚ)| * (2 ^ 52 - 1) ≤ d.value) (ne : Double.narrow y ≠ quanta) :
    ∃ significand dropped, Halfway.Near length significand dropped (d.coefficient * 10 ^ (8 - count)) := by
  rw [← roundSignificant_of_readsBack positive back] at ne
  obtain ⟨significand,dropped,normal,between⟩ :=
    exists_midpoint_of_ne (by decide) d.denominator_pos (Nat.two_pow_pos _) (Ne.symm ne)
  rw [quanta_of_value,Double.quanta_of_double,← sub_mul] at between
  have halves := close.halves few is
  have twice : ((2 * significand + 1) * 2 ^ dropped - d.value * 2 ^ 150 : ℚ) =
      2 * ((2 * significand + 1) * 2 ^ dropped / 2 - d.value * 2 ^ Format.single.scale) := by
    rw [two_pow_half]
    ring
  have error' : |((2 * significand + 1) * 2 ^ dropped - d.value * 2 ^ 150 : ℚ)| * (2 ^ 52 - 1) ≤ d.value * 2 ^ 150 := by
    have unit : (0 : ℚ) < 2 ^ Format.single.scale := by positivity
    rw [twice,abs_mul,abs_two,two_pow_half]
    rw [abs_mul,abs_of_pos unit] at between
    linarith [mul_le_mul_of_nonneg_right error (le_of_lt unit)]
  rw [halves] at error'
  obtain ⟨low,high⟩ := Halfway.within_parts (Halfway.bottom_pos length) (by exact_mod_cast error')
  obtain ⟨least,most⟩ := close.eight some few
  exact ⟨significand,dropped,normal,least,most,low,high⟩

theorem Close.narrow_of_point (exactly : ∀ m, Fits Format.double.precision m → d.value * 2 ^ Format.double.scale = m → y = m)
    (small : significand < 2 ^ 24)
    (point : (2 * significand + 1) * 2 ^ dropped * Halfway.bottom length = d.coefficient * 10 ^ (8 - count) * Halfway.top length) :
    Double.narrow y = roundSignificant Format.single.precision (d.numerator * 2 ^ Format.single.scale) d.denominator := by
  obtain ⟨rest,split⟩ : ∃ rest, Format.double.scale = 150 + rest := ⟨924,rfl⟩
  have fits : Fits Format.double.precision ((2 * significand + 1) * 2 ^ (dropped + rest)) :=
    ⟨_,_,show 2 * significand + 1 < 2 ^ 53 by omega,rfl⟩
  have worth : d.value * 2 ^ Format.double.scale = ((2 * significand + 1) * 2 ^ (dropped + rest) : Nat) := by
    have bottom : (Halfway.bottom length : ℚ) ≠ 0 := by exact_mod_cast Nat.ne_of_gt (Halfway.bottom_pos length)
    have half : d.value * 2 ^ 150 = (2 * significand + 1) * 2 ^ dropped := by
      rw [close.halves few is,div_eq_iff bottom]
      exact_mod_cast point.symm
    rw [split,pow_add,← mul_assoc,half,Nat.pow_add]
    push_cast
    ring
  refine roundSignificant_of_value (Nat.two_pow_pos _) ?_
  rw [Double.quanta_of_double,exactly _ fits worth,← worth,mul_div_cancel_right₀ _ (by positivity)]

theorem Close.ofQuanta_eq (positive : 0 < quanta) (back : ReadsBack quanta d) (representable : Representable quanta) :
    Single.ofQuanta false (d.coefficient * 10 ^ (8 - count) * Halfway.top length) (2 * Halfway.bottom length) =
      .finite false quanta representable := by
  refine Single.ofQuanta_eq_finite.mpr ⟨rfl,?_⟩
  rw [← roundSignificant_of_readsBack positive back]
  refine roundSignificant_of_value (Nat.mul_pos two_pos (Halfway.bottom_pos length)) ?_
  have halves := close.halves few is
  rw [two_pow_half] at halves
  rw [Nat.mul_comm 2,Nat.cast_mul _ 2,← div_div,Nat.cast_mul _ (Halfway.top length),← halves,Nat.cast_two]
  ring

omit few is in
-- Any double as near to the digits leads back to a number that was not tried.
theorem Close.narrow_or_tried (some : 0 < count) (most : count ≤ 9) (positive : 0 < quanta) (representable : Representable quanta)
    (back : ReadsBack quanta d) (error : |(y / 2 ^ Format.double.scale - d.value : ℚ)| * (2 ^ 52 - 1) ≤ d.value)
    (exactly : -3 ≤ power quanta → power quanta ≤ 19 → ∀ m, Fits Format.double.precision m → d.value * 2 ^ Format.double.scale = m → y = m) :
    Double.narrow y = quanta ∨ (Single.finite false quanta representable).Tried := by
  by_cases nine : count = 9
  · exact .inl (close.narrow_of_nine nine positive representable error)
  have few : count ≤ 8 := by omega
  have range := power_range positive representable.1
  refine or_iff_not_imp_left.mpr fun ne => ?_
  obtain ⟨length,is,_⟩ := exists_length positive
  obtain ⟨significand,dropped,near⟩ := close.exists_near few is some positive back error ne
  rcases near.tried (by omega) (by omega) with ⟨point,low,high⟩ | tried
  · exact absurd ((close.narrow_of_point few is (exactly (by omega) (by omega)) near.normal.small point).trans
      (Decimal.roundSignificant_of_readsBack positive back)) ne
  · rwa [close.ofQuanta_eq few is positive back representable] at tried

end Digits

namespace Single
variable {x : Single}

theorem survives_zero (negative : Bool) : (zero negative).Survives ∧ (zero negative).SurvivesNearest := by
  cases negative <;> decide +kernel

theorem eq_stray {quanta : Nat} {representable : Representable quanta} (same : finite false quanta representable = stray false)
    (negative : Bool) : finite negative quanta representable = stray negative := by
  unfold stray ofRatio at same ⊢
  exact (ofQuanta_eq_finite.mpr ⟨rfl,(ofQuanta_eq_finite.mp same.symm).2⟩).symm

theorem survives_positive {quanta : Nat} (negative : Bool) (representable : Representable quanta) (positive : 0 < quanta) :
    (finite negative quanta representable).Survives ∧
      ((finite negative quanta representable).SurvivesNearest ∨ finite negative quanta representable = stray negative) := by
  obtain ⟨count,d,some,most,shortest,back,close⟩ := Digits.shortest_close .even representable positive
  have nonzero : 0 < d.coefficient := Nat.lt_of_lt_of_le (Nat.pow_pos (by decide)) close.least
  have small : d.coefficient ≤ 10 ^ 9 := Nat.le_trans close.most (Nat.pow_le_pow_right (by decide) most)
  obtain ⟨w,reads,iff⟩ := survives_iff representable positive shortest nonzero small
  have range := Digits.power_range positive representable.1
  have upper := reads.exponent_le close
  have lower := reads.least
  have exponent := close.exponent
  constructor
  · obtain ⟨y,scaled,error⟩ := Double.scaled?_close reads.some reads.few (by omega)
    rw [reads.value] at error
    refine (iff negative).1.mpr ?_
    rcases close.narrow_or_tried some most positive representable back error (fun low high m fits worth => Option.some.inj
      (scaled.symm.trans (Double.scaled?_exact reads.few (by omega) fits (by rw [reads.value,worth])))) with same | tried
    · exact ⟨y,scaled,same⟩
    · exact (iff false).1.mp tried.1
  · obtain ⟨y,nearest,error⟩ := Double.units?_close reads.some reads.few (by omega)
    rw [reads.value] at error
    rcases close.narrow_or_tried some most positive representable back error (fun _ _ m fits worth => Option.some.inj
      (nearest.symm.trans (Double.units?_exact reads.some reads.few (by omega) fits (by rw [reads.value,worth])))) with same | tried
    · exact .inl ((iff negative).2.mpr ⟨y,nearest,same⟩)
    · exact tried.2.imp (fun survives => (iff negative).2.mpr ((iff false).2.mp survives)) (eq_stray · negative)

theorem survives_iff_isFinite : x.Survives ↔ x.IsFinite := by
  constructor
  · intro survives
    cases x with
    | finite => trivial
    | nan => cases survives
    | infinite negative => cases survives
  · intro finite
    cases x with
    | nan => cases finite
    | infinite negative => cases finite
    | finite negative quanta representable =>
        rcases Nat.eq_zero_or_pos quanta with rfl | positive
        · exact (survives_zero negative).1
        · exact (survives_positive negative representable positive).1

theorem stray_strays (negative : Bool) : ¬(stray negative).SurvivesNearest := by
  cases negative <;> decide +kernel

theorem survivesNearest_iff (finite : x.IsFinite) : x.SurvivesNearest ↔ ∀ negative, x ≠ stray negative := by
  constructor
  · rintro survives negative rfl
    exact stray_strays negative survives
  · intro other
    cases x with
    | nan => cases finite
    | infinite negative => cases finite
    | finite negative quanta representable =>
        rcases Nat.eq_zero_or_pos quanta with rfl | positive
        · exact (survives_zero negative).2
        · exact (survives_positive negative representable positive).2.resolve_right (other negative)

end Single

namespace Json
open Single

theorem single?_pretty_ofSingle {x : Single} (finite : x.IsFinite) (depth : Nat) :
    (parse? (pretty depth (ofSingle x))).bind single? = some x := by
  rw [parse?_pretty (spelled_ofSingle x),Option.bind_some,single?_ofSingle]
  exact survives_iff_isFinite.mpr finite

def nearest? : Json → Option Single
  | .number spelling => (Numeral.read? spelling).bind Numeral.throughNearest?
  | _ => none

theorem nearest?_ofSingle (x : Single) : nearest? (ofSingle x) = x.rereadNearest? := by
  unfold ofSingle rereadNearest?
  cases x.numeral? <;> rfl

-- Of all finite numbers the nearest double loses one, but for its sign; as numbers are read
-- here, none is lost.
theorem nearest?_pretty_ofSingle {x : Single} (finite : x.IsFinite) (depth : Nat) :
    ((parse? (pretty depth (ofSingle x))).bind nearest? = some x ↔ ∀ negative, x ≠ stray negative) ∧
      (parse? (pretty depth (ofSingle x))).bind single? = some x := by
  refine ⟨?_,single?_pretty_ofSingle finite depth⟩
  rw [parse?_pretty (spelled_ofSingle x),Option.bind_some,nearest?_ofSingle]
  exact survivesNearest_iff finite

theorem nearest?_pretty_least : (ofQuanta true 1 1).IsFinite ∧
    (parse? (pretty 0 (ofSingle (ofQuanta true 1 1)))).bind nearest? = some (ofQuanta true 1 1) ∧
    (parse? (pretty 0 (ofSingle (ofQuanta true 1 1)))).bind single? = some (ofQuanta true 1 1) := by
  have finite : (ofQuanta true 1 1).IsFinite := by decide
  have other : ∀ negative, ofQuanta true 1 1 ≠ stray negative := by decide +kernel
  obtain ⟨nearest,scaled⟩ := nearest?_pretty_ofSingle finite 0
  exact ⟨finite,nearest.mpr other,scaled⟩

-- What is read for the one that is lost is the next single.
theorem nearest?_pretty_stray : (stray false).IsFinite ∧ stray false = ofQuanta false (11420669 * 2 ^ 42) 1 ∧
    (parse? (pretty 0 (ofSingle (stray false)))).bind nearest? = some (ofQuanta false (11420670 * 2 ^ 42) 1) ∧
    ¬∀ x : Single, x.IsFinite → (parse? (pretty 0 (ofSingle x))).bind nearest? = some x := by
  have finite : (stray false).IsFinite := by decide +kernel
  have next : (parse? (pretty 0 (ofSingle (stray false)))).bind nearest? = some (ofQuanta false (11420670 * 2 ^ 42) 1) := by decide +kernel
  refine ⟨finite,by decide +kernel,next,fun always => ?_⟩
  have ne : ofQuanta false (11420670 * 2 ^ 42) 1 ≠ stray false := by decide +kernel
  exact ne (Option.some.inj (next.symm.trans (always _ finite)))

end Json
end BoxLayout
