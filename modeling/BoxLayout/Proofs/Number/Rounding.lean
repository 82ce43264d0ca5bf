import BoxLayout.Number.Rounding

namespace BoxLayout.Number

-- Rounding never carries a quotient past a count that fits: such a count is a
-- multiple of the unit rounded to, or lies in a smaller binade.

variable {precision m numerator denominator : Nat}

theorem roundQuotient_le_of_le (below : numerator ≤ m * denominator) : roundQuotient numerator denominator ≤ m := by
  rcases Nat.eq_zero_or_pos denominator with rfl | positive
  · obtain rfl : numerator = 0 := by omega
    simp [roundQuotient]
  · have whole : numerator / denominator ≤ m := Nat.div_le_of_le_mul (by rwa [Nat.mul_comm])
    have split := Nat.div_add_mod numerator denominator
    unfold roundQuotient
    dsimp only
    split
    · rename_i up
      rcases Nat.lt_or_eq_of_le whole with less | exact
      · exact less
      · rw [exact,Nat.mul_comm] at split
        omega
    · exact whole

theorem le_roundQuotient (above : m * denominator ≤ numerator) (positive : 0 < denominator) :
    m ≤ roundQuotient numerator denominator := by
  have whole : m ≤ numerator / denominator := (Nat.le_div_iff_mul_le positive).mpr above
  unfold roundQuotient
  dsimp only
  split
  · exact Nat.le_succ_of_le whole
  · exact whole

theorem Fits.dvd {e : Nat} (fits : Fits precision m) (large : 2 ^ e ≤ m) : 2 ^ (e + 1 - precision) ∣ m := by
  obtain ⟨significand,exponent,small,rfl⟩ := fits
  have room : significand * 2 ^ exponent < 2 ^ (precision + exponent) := by
    rw [Nat.pow_add]
    exact Nat.mul_lt_mul_of_pos_right small (Nat.two_pow_pos exponent)
  have less := (Nat.pow_lt_pow_iff_right (by decide)).mp (Nat.lt_of_le_of_lt large room)
  exact Nat.dvd_trans (Nat.pow_dvd_pow 2 (by omega)) (Nat.dvd_mul_left ..)

theorem roundSignificant_le (fits : Fits precision m) (below : numerator ≤ m * denominator) :
    roundSignificant precision numerator denominator ≤ m := by
  have whole : numerator / denominator ≤ m := Nat.div_le_of_le_mul (by rwa [Nat.mul_comm])
  unfold roundSignificant
  dsimp only
  rcases Nat.eq_zero_or_pos m with rfl | positive
  · have none : roundQuotient numerator (denominator * 2 ^ droppedBits precision (numerator / denominator)) ≤ 0 :=
      roundQuotient_le_of_le (by omega)
    exact Nat.le_of_eq (by rw [Nat.le_zero.mp none,Nat.zero_mul])
  · have large : 2 ^ (numerator / denominator).log2 ≤ m := by
      rcases Nat.eq_zero_or_pos (numerator / denominator) with zero | some
      · rw [zero]
        exact positive
      · exact Nat.le_trans (Nat.log2_self_le (Nat.ne_of_gt some)) whole
    obtain ⟨k,multiple⟩ := fits.dvd large
    change m = 2 ^ droppedBits precision (numerator / denominator) * k at multiple
    have rounded : roundQuotient numerator (denominator * 2 ^ droppedBits precision (numerator / denominator)) ≤ k := by
      apply roundQuotient_le_of_le
      calc numerator ≤ m * denominator := below
        _ = k * (denominator * 2 ^ droppedBits precision (numerator / denominator)) := by rw [multiple]; ac_rfl
    calc _ ≤ k * 2 ^ droppedBits precision (numerator / denominator) := Nat.mul_le_mul_right _ rounded
      _ = m := by rw [multiple,Nat.mul_comm]

-- A multiple of the unit rounded to is never rounded past from above.
theorem le_roundSignificant_of_dvd (unit : 2 ^ droppedBits precision (numerator / denominator) ∣ m)
    (above : m * denominator ≤ numerator) (positive : 0 < denominator) :
    m ≤ roundSignificant precision numerator denominator := by
  obtain ⟨k,rfl⟩ := unit
  have rounded : k ≤ roundQuotient numerator (denominator * 2 ^ droppedBits precision (numerator / denominator)) := by
    apply le_roundQuotient
    · calc k * (denominator * 2 ^ droppedBits precision (numerator / denominator))
          = 2 ^ droppedBits precision (numerator / denominator) * k * denominator := by ac_rfl
        _ ≤ numerator := above
    · exact Nat.mul_pos positive (Nat.two_pow_pos _)
  rw [Nat.mul_comm]
  exact Nat.mul_le_mul_right _ rounded

theorem le_roundSignificant (fits : Fits precision m) (above : m * denominator ≤ numerator) (positive : 0 < denominator)
    (precise : 0 < precision) : m ≤ roundSignificant precision numerator denominator := by
  have whole : m ≤ numerator / denominator := (Nat.le_div_iff_mul_le positive).mpr above
  rcases Nat.eq_zero_or_pos m with rfl | some
  · exact Nat.zero_le _
  · rcases Nat.lt_or_ge m (2 ^ (numerator / denominator).log2) with less | large
    · have binade : 2 ^ (numerator / denominator).log2 ≤ numerator / denominator := Nat.log2_self_le (by omega)
      refine Nat.le_trans (Nat.le_of_lt less) (le_roundSignificant_of_dvd ?_ ?_ positive)
      · exact Nat.pow_dvd_pow 2 (by unfold droppedBits; omega)
      · exact (Nat.le_div_iff_mul_le positive).mp binade
    · exact le_roundSignificant_of_dvd (fits.dvd large) above positive

theorem roundSignificant_of_fits (fits : Fits precision m) (precise : 0 < precision) : roundSignificant precision m 1 = m :=
  Nat.le_antisymm (roundSignificant_le fits (by omega)) (le_roundSignificant fits (by omega) (by decide) precise)

theorem fits_whole {n : Nat} (few : n ≤ 2 ^ precision) (precise : 0 < precision) (scale : Nat) :
    Fits precision (n * 2 ^ scale) := by
  rcases Nat.lt_or_eq_of_le few with less | most
  · exact ⟨n,_,less,rfl⟩
  · exact ⟨1,precision + scale,Nat.one_lt_two_pow (Nat.ne_of_gt precise),by rw [most,Nat.pow_add,Nat.one_mul]⟩

theorem roundQuotient_mono {other : Nat} (le : numerator ≤ other) :
    roundQuotient numerator denominator ≤ roundQuotient other denominator := by
  have whole : numerator / denominator ≤ other / denominator := Nat.div_le_div_right le
  rcases Nat.lt_or_eq_of_le whole with less | same
  · have above : other / denominator ≤ roundQuotient other denominator := by
      unfold roundQuotient
      dsimp only
      split <;> omega
    exact Nat.le_trans (roundQuotient_le numerator denominator) (Nat.le_trans less above)
  · have rest : numerator % denominator ≤ other % denominator := by
      have one := Nat.div_add_mod numerator denominator
      have two := Nat.div_add_mod other denominator
      rw [same] at one
      omega
    unfold roundQuotient
    dsimp only
    rw [same]
    split <;> split <;> omega

-- In one binade the unit is the same; a power of two lies between two of them.
theorem roundSignificant_mono {other : Nat} (le : numerator ≤ other) (positive : 0 < denominator) (precise : 0 < precision) :
    roundSignificant precision numerator denominator ≤ roundSignificant precision other denominator := by
  have whole : numerator / denominator ≤ other / denominator := Nat.div_le_div_right le
  have binades : (numerator / denominator).log2 ≤ (other / denominator).log2 := by
    rcases Nat.eq_zero_or_pos (numerator / denominator) with zero | some
    · rw [zero]
      exact Nat.zero_le _
    · rw [Nat.le_log2 (by omega)]
      exact Nat.le_trans (Nat.log2_self_le (by omega)) whole
  rcases Nat.lt_or_eq_of_le binades with less | same
  · have fits : Fits precision (2 ^ ((numerator / denominator).log2 + 1)) :=
      ⟨1,_,Nat.one_lt_two_pow (by omega),(Nat.one_mul _).symm⟩
    have below : numerator ≤ 2 ^ ((numerator / denominator).log2 + 1) * denominator :=
      Nat.le_of_lt ((Nat.div_lt_iff_lt_mul positive).mp Nat.lt_log2_self)
    have above : 2 ^ ((numerator / denominator).log2 + 1) * denominator ≤ other := by
      rw [← Nat.le_div_iff_mul_le positive]
      exact Nat.le_trans (Nat.pow_le_pow_right (by decide) less) (Nat.log2_self_le fun zero => by simp [zero] at less)
    exact Nat.le_trans (roundSignificant_le fits below) (le_roundSignificant fits above positive precise)
  · have unit : droppedBits precision (numerator / denominator) = droppedBits precision (other / denominator) := by
      unfold droppedBits
      rw [same]
    unfold roundSignificant
    dsimp only
    rw [unit]
    exact Nat.mul_le_mul_right _ (roundQuotient_mono le)

end BoxLayout.Number
