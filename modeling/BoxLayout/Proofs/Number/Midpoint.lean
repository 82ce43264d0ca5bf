import BoxLayout.Proofs.Number.Value

namespace BoxLayout.Number

-- Where rounding turns from one count to the next: half way between two counts that fit,
-- and nowhere else. Whatever rounds differently has such a point between.

variable {precision numerator denominator numerator' denominator' m : Nat}

theorem roundQuotient_scale {k : Nat} (positive : 0 < k) :
    roundQuotient (numerator * k) (denominator * k) = roundQuotient numerator denominator := by
  unfold roundQuotient
  dsimp only
  rw [Nat.mul_div_mul_right _ _ positive,Nat.mul_mod_mul_right,← Nat.mul_assoc]
  simp only [Nat.mul_lt_mul_right positive,Nat.mul_left_inj (Nat.ne_of_gt positive)]

theorem roundSignificant_scale {k : Nat} (positive : 0 < k) :
    roundSignificant precision (numerator * k) (denominator * k) = roundSignificant precision numerator denominator := by
  unfold roundSignificant
  dsimp only
  rw [Nat.mul_div_mul_right _ _ positive,Nat.mul_right_comm,roundQuotient_scale positive]

theorem roundSignificant_congr (one : 0 < denominator) (two : 0 < denominator')
    (same : numerator * denominator' = numerator' * denominator) :
    roundSignificant precision numerator denominator = roundSignificant precision numerator' denominator' := by
  rw [← roundSignificant_scale two,← @roundSignificant_scale _ numerator' denominator' _ one,same,Nat.mul_comm denominator]

structure Normal (precision significand dropped : Nat) : Prop where
  small : significand < 2 ^ precision
  unit : droppedBits precision (significand * 2 ^ dropped) = dropped
  full : dropped = 0 ∨ 2 ^ (precision - 1) ≤ significand

theorem Fits.normal (fits : Fits precision m) (precise : 0 < precision) :
    ∃ significand dropped, Normal precision significand dropped ∧ m = significand * 2 ^ dropped := by
  rcases Nat.eq_zero_or_pos m with rfl | some
  · have none : droppedBits precision 0 = 0 := Nat.sub_eq_zero_of_le precise
    exact ⟨0,0,⟨Nat.two_pow_pos _,none,.inl rfl⟩,rfl⟩
  · have binade : 2 ^ m.log2 ≤ m := Nat.log2_self_le (Nat.ne_of_gt some)
    obtain ⟨significand,multiple⟩ := fits.dvd binade
    change m = 2 ^ droppedBits precision m * significand at multiple
    have found : m / 2 ^ droppedBits precision m = significand :=
      Nat.div_eq_of_eq_mul_right (Nat.two_pow_pos _) multiple
    have product : m = significand * 2 ^ droppedBits precision m := by rwa [Nat.mul_comm]
    refine ⟨significand,droppedBits precision m,⟨found ▸ div_lt_of_droppedBits precision m,by rw [← product],?_⟩,product⟩
    by_cases none : droppedBits precision m = 0
    · exact .inl none
    · right
      rw [← found,Nat.le_div_iff_mul_le (Nat.two_pow_pos _),← Nat.pow_add]
      have places : precision - 1 + droppedBits precision m = m.log2 := by
        unfold droppedBits at none ⊢
        omega
      rwa [places]

namespace Normal
variable {significand dropped : Nat} (normal : Normal precision significand dropped) (precise : 0 < precision)
include normal

theorem fits : Fits precision (significand * 2 ^ dropped) := ⟨significand,dropped,normal.small,rfl⟩

include precise

theorem next_le (fits : Fits precision m) (less : significand * 2 ^ dropped < m) : (significand + 1) * 2 ^ dropped ≤ m := by
  have dvd : 2 ^ dropped ∣ m := by
    rcases Nat.eq_zero_or_pos (significand * 2 ^ dropped) with zero | some
    · have none : dropped = 0 := by
        rw [← normal.unit,zero]
        exact Nat.sub_eq_zero_of_le precise
      rw [none]
      exact Nat.one_dvd m
    · have multiple := fits.dvd (Nat.le_trans (Nat.log2_self_le (Nat.ne_of_gt some)) (Nat.le_of_lt less))
      rwa [← normal.unit]
  obtain ⟨k,rfl⟩ := dvd
  rw [Nat.mul_comm _ k] at less ⊢
  exact Nat.mul_le_mul_right _ (Nat.lt_of_mul_lt_mul_right less)

theorem droppedBits_within (low : significand * 2 ^ dropped ≤ m) (high : m < (significand + 1) * 2 ^ dropped) :
    droppedBits precision m = dropped := by
  have unit := normal.unit
  rcases Nat.eq_zero_or_pos dropped with rfl | some
  · have same : m = significand * 2 ^ 0 := by omega
    rwa [same]
  · generalize at_lower : significand * 2 ^ dropped = lower at *
    have positive : lower ≠ 0 := by
      rintro rfl
      exact Nat.ne_of_gt some (unit.symm.trans (Nat.sub_eq_zero_of_le precise))
    have room : (significand + 1) * 2 ^ dropped ≤ 2 ^ (lower.log2 + 1) := by
      have places : precision + dropped = lower.log2 + 1 := by
        unfold droppedBits at unit
        omega
      rw [← places,Nat.pow_add]
      exact Nat.mul_le_mul_right _ normal.small
    have binade : m.log2 = lower.log2 := by
      refine Nat.le_antisymm (Nat.le_of_lt_succ ?_) ?_
      · exact (Nat.log2_lt (by omega)).mpr (Nat.lt_of_lt_of_le high room)
      · exact (Nat.le_log2 (by omega)).mpr (Nat.le_trans (Nat.log2_self_le positive) low)
    rw [droppedBits,binade]
    exact unit

theorem roundSignificant_within (positive : 0 < denominator) (low : significand * 2 ^ dropped * denominator ≤ numerator)
    (high : numerator < (significand + 1) * 2 ^ dropped * denominator) :
    numerator / (denominator * 2 ^ dropped) = significand ∧ roundSignificant precision numerator denominator =
      roundQuotient numerator (denominator * 2 ^ dropped) * 2 ^ dropped := by
  have low' := (Nat.le_div_iff_mul_le positive).mpr low
  have high' := (Nat.div_lt_iff_lt_mul positive).mpr high
  constructor
  · rw [← Nat.div_div_eq_div_mul]
    exact Nat.div_eq_of_lt_le low' high'
  · unfold roundSignificant
    dsimp only
    rw [normal.droppedBits_within precise low' high']

theorem roundSignificant_le_below (positive : 0 < denominator)
    (below : 2 * numerator < (2 * significand + 1) * 2 ^ dropped * denominator) :
    roundSignificant precision numerator denominator ≤ significand * 2 ^ dropped := by
  rcases Nat.lt_or_ge (significand * 2 ^ dropped * denominator) numerator with more | less
  · have high : numerator < (significand + 1) * 2 ^ dropped * denominator := by
      have product : 2 * ((significand + 1) * 2 ^ dropped * denominator) =
          (2 * significand + 1) * 2 ^ dropped * denominator + 2 ^ dropped * denominator := by ring
      omega
    obtain ⟨whole,rounded⟩ := normal.roundSignificant_within precise positive (Nat.le_of_lt more) high
    rw [rounded]
    refine Nat.mul_le_mul_right _ ?_
    have split := Nat.div_add_mod numerator (denominator * 2 ^ dropped)
    rw [whole] at split
    unfold roundQuotient
    dsimp only
    rw [whole,if_neg]
    have product : (2 * significand + 1) * 2 ^ dropped * denominator =
        2 * (denominator * 2 ^ dropped * significand) + denominator * 2 ^ dropped := by ring
    omega
  · exact roundSignificant_le normal.fits less

theorem le_roundSignificant_above (positive : 0 < denominator)
    (above : (2 * significand + 1) * 2 ^ dropped * denominator < 2 * numerator) :
    (significand + 1) * 2 ^ dropped ≤ roundSignificant precision numerator denominator := by
  have next : Fits precision ((significand + 1) * 2 ^ dropped) := fits_whole normal.small precise dropped
  rcases Nat.lt_or_ge numerator ((significand + 1) * 2 ^ dropped * denominator) with less | more
  · have low : significand * 2 ^ dropped * denominator ≤ numerator := by
      have product : (2 * significand + 1) * 2 ^ dropped * denominator =
          2 * (significand * 2 ^ dropped * denominator) + 2 ^ dropped * denominator := by ring
      omega
    obtain ⟨whole,rounded⟩ := normal.roundSignificant_within precise positive low less
    rw [rounded]
    refine Nat.mul_le_mul_right _ ?_
    have split := Nat.div_add_mod numerator (denominator * 2 ^ dropped)
    rw [whole] at split
    unfold roundQuotient
    dsimp only
    rw [whole,if_pos]
    have product : (2 * significand + 1) * 2 ^ dropped * denominator =
        2 * (denominator * 2 ^ dropped * significand) + denominator * 2 ^ dropped := by ring
    omega
  · exact le_roundSignificant next more positive precise

end Normal

-- The point half way above the lesser of two results parts what they were rounded from.
theorem exists_midpoint (precise : 0 < precision) (one : 0 < denominator) (two : 0 < denominator')
    (less : roundSignificant precision numerator denominator < roundSignificant precision numerator' denominator') :
    ∃ significand dropped, Normal precision significand dropped ∧
      roundSignificant precision numerator denominator = significand * 2 ^ dropped ∧
      (significand + 1) * 2 ^ dropped ≤ roundSignificant precision numerator' denominator' ∧
      (numerator / denominator : ℚ) ≤ (2 * significand + 1) * 2 ^ dropped / 2 ∧
      ((2 * significand + 1) * 2 ^ dropped / 2 : ℚ) ≤ numerator' / denominator' := by
  obtain ⟨significand,dropped,normal,is⟩ := (fits_roundSignificant precision numerator denominator precise).normal precise
  rw [is] at less ⊢
  have next := normal.next_le precise (fits_roundSignificant precision numerator' denominator' precise) less
  have one' : (0 : ℚ) < denominator := by exact_mod_cast one
  have two' : (0 : ℚ) < denominator' := by exact_mod_cast two
  refine ⟨significand,dropped,normal,rfl,next,?_,?_⟩
  · rw [div_le_div_iff₀ one' two_pos,mul_comm (numerator : ℚ)]
    norm_cast
    refine Nat.le_of_not_lt fun above => ?_
    have up := normal.le_roundSignificant_above precise one above
    rw [is] at up
    exact absurd (Nat.le_of_mul_le_mul_right up (Nat.two_pow_pos dropped)) (Nat.not_succ_le_self significand)
  · rw [div_le_div_iff₀ two_pos two',mul_comm (numerator' : ℚ)]
    norm_cast
    exact Nat.le_of_not_lt fun below => absurd (normal.roundSignificant_le_below precise two below) (Nat.not_le_of_lt less)

-- Of two results that differ, the point between is no further from either than they are apart.
theorem exists_midpoint_of_ne (precise : 0 < precision) (one : 0 < denominator) (two : 0 < denominator')
    (ne : roundSignificant precision numerator denominator ≠ roundSignificant precision numerator' denominator') :
    ∃ significand dropped, Normal precision significand dropped ∧
      |((2 * significand + 1) * 2 ^ dropped / 2 - numerator / denominator : ℚ)| ≤ |(numerator' / denominator' - numerator / denominator : ℚ)| := by
  rcases Nat.lt_or_gt_of_ne ne with less | more
  · obtain ⟨significand,dropped,normal,_,_,left,right⟩ := exists_midpoint precise one two less
    refine ⟨significand,dropped,normal,?_⟩
    rw [abs_of_nonneg (by linarith),abs_of_nonneg (by linarith)]
    linarith
  · obtain ⟨significand,dropped,normal,_,_,left,right⟩ := exists_midpoint precise two one more
    refine ⟨significand,dropped,normal,?_⟩
    rw [abs_of_nonpos (by linarith),abs_of_nonpos (by linarith)]
    linarith

theorem roundSignificant_near (fits : Fits precision m) (precise : 0 < precision) (positive : 0 < denominator)
    (close : |(numerator / denominator : ℚ) - m| < m / 2 ^ (precision + 1)) :
    roundSignificant precision numerator denominator = m := by
  have kept := roundSignificant_of_fits fits precise
  have room : ∀ {significand dropped}, Normal precision significand dropped →
      ((significand + 1) * 2 ^ dropped : ℚ) / 2 ^ (precision + 1) ≤ 2 ^ dropped / 2 := by
    intro significand dropped normal
    have small : ((significand + 1 : Nat) : ℚ) ≤ ((2 ^ precision : Nat) : ℚ) := by exact_mod_cast normal.small
    push_cast at small
    rw [div_le_iff₀ (by positivity),pow_succ]
    linarith [mul_le_mul_of_nonneg_right small (by positivity : (0 : ℚ) ≤ 2 ^ dropped)]
  rw [abs_lt] at close
  rcases Nat.lt_trichotomy (roundSignificant precision numerator denominator) m with less | same | more
  · rw [← kept] at less
    obtain ⟨significand,dropped,normal,_,next,left,_⟩ := exists_midpoint precise positive Nat.one_pos less
    rw [kept] at next
    have next' : ((significand + 1) * 2 ^ dropped : ℚ) ≤ m := by exact_mod_cast next
    -- The part of m past the next count only adds to the distance.
    have past : (m - (significand + 1) * 2 ^ dropped : ℚ) / 2 ^ (precision + 1) ≤ m - (significand + 1) * 2 ^ dropped :=
      div_le_self (sub_nonneg.mpr next') (one_le_pow₀ one_le_two)
    rw [sub_div] at past
    linarith [room normal]
  · exact same
  · rw [← kept] at more
    obtain ⟨significand,dropped,normal,is,_,_,right⟩ := exists_midpoint precise Nat.one_pos positive more
    rw [kept] at is
    have is' : (m : ℚ) = significand * 2 ^ dropped := by exact_mod_cast is
    have least : (m : ℚ) / 2 ^ (precision + 1) ≤ ((significand + 1) * 2 ^ dropped : ℚ) / 2 ^ (precision + 1) := by
      rw [is']
      gcongr
      linarith
    linarith [room normal]

end BoxLayout.Number
