namespace BoxLayout.Number

-- Rounding of exact quotients. Every number here is a whole count of some
-- smallest unit, so a binary format with gradual underflow is a set of naturals
-- and rounding is a function on naturals.

-- Powers of naturals stay the built-in ones where more general powers are known.
@[default_instance high]
instance builtinPow : Pow Nat Nat := instPowNat

def roundQuotient (numerator denominator : Nat) : Nat :=
  let whole := numerator / denominator
  let rest := 2 * (numerator % denominator)
  if denominator < rest ∨ (rest = denominator ∧ whole % 2 = 1) then whole + 1 else whole

def Fits (precision n : Nat) : Prop :=
  ∃ significand exponent, significand < 2 ^ precision ∧ n = significand * 2 ^ exponent

-- Bits below the significand of a count of this size; none for a small count,
-- which is how underflow loses precision gradually.
def droppedBits (precision n : Nat) : Nat := n.log2 + 1 - precision

def roundSignificant (precision numerator denominator : Nat) : Nat :=
  let dropped := droppedBits precision (numerator / denominator)
  roundQuotient numerator (denominator * 2 ^ dropped) * 2 ^ dropped

theorem roundQuotient_le (numerator denominator : Nat) :
    roundQuotient numerator denominator ≤ numerator / denominator + 1 := by
  simp only [roundQuotient]
  split <;> omega

theorem div_lt_of_droppedBits (precision n : Nat) : n / 2 ^ droppedBits precision n < 2 ^ precision := by
  rw [Nat.div_lt_iff_lt_mul (Nat.two_pow_pos _),← Nat.pow_add]
  have size : n < 2 ^ (n.log2 + 1) := Nat.lt_log2_self
  have room : n.log2 + 1 ≤ precision + droppedBits precision n := by unfold droppedBits; omega
  exact Nat.lt_of_lt_of_le size (Nat.pow_le_pow_right (by decide) room)

theorem fits_roundSignificant (precision numerator denominator : Nat) (positive : 0 < precision) :
    Fits precision (roundSignificant precision numerator denominator) := by
  unfold roundSignificant
  generalize at_dropped : droppedBits precision (numerator / denominator) = dropped
  have below : numerator / (denominator * 2 ^ dropped) < 2 ^ precision := by
    rw [← Nat.div_div_eq_div_mul,← at_dropped]
    exact div_lt_of_droppedBits precision _
  have rounded := roundQuotient_le numerator (denominator * 2 ^ dropped)
  by_cases full : roundQuotient numerator (denominator * 2 ^ dropped) = 2 ^ precision
  · refine ⟨1,precision + dropped,Nat.one_lt_two_pow (by omega),?_⟩
    simp only [full,Nat.pow_add,Nat.one_mul]
  · exact ⟨_,dropped,by omega,rfl⟩

theorem fits_zero (precision : Nat) : Fits precision 0 :=
  ⟨0,0,Nat.two_pow_pos _,by simp⟩

end BoxLayout.Number
