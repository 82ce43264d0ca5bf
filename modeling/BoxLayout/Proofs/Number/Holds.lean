import BoxLayout.Proofs.Number.Value

namespace BoxLayout
open Number

-- Whole numbers up to the precision are held without rounding, and so are their sums.

namespace Single
variable {x y : Single} {m n : Int}

def Holds (x : Single) (n : Int) : Prop := x.rank = some (n * 2 ^ Format.single.scale)

instance (x : Single) (n : Int) : Decidable (x.Holds n) := inferInstanceAs (Decidable (_ = _))

namespace Holds

theorem value (holds : x.Holds n) : x.value = n := by
  rw [value_of_rank holds]
  push_cast
  exact mul_div_cancel_right₀ _ (by positivity)

theorem ne_nan (holds : x.Holds n) : x ≠ .nan := by
  rintro rfl
  cases holds

theorem finite (holds : x.Holds n) (small : n.natAbs ≤ 2 ^ 24) : ∃ negative quanta representable,
    x = .finite negative quanta representable ∧ signed negative quanta = n * 2 ^ Format.single.scale := by
  cases x with
  | nan => cases holds
  | finite negative quanta representable => exact ⟨_,_,_,rfl,Option.some.inj holds⟩
  | infinite negative =>
      have rank : signed negative Format.single.limit = n * 2 ^ Format.single.scale := Option.some.inj holds
      have huge : (signed negative Format.single.limit).natAbs = Format.single.limit := by cases negative <;> rfl
      rw [rank,Int.natAbs_mul] at huge
      have less : n.natAbs * 2 ^ Format.single.scale < Format.single.limit :=
        Nat.mul_lt_mul_of_pos_right (Nat.lt_of_le_of_lt small (by decide)) (Nat.two_pow_pos _)
      exact absurd huge (Nat.ne_of_lt less)

theorem neg (holds : x.Holds n) : (-x).Holds (-n) := by
  unfold Holds at holds ⊢
  rw [rank_neg,holds,Int.neg_mul]
  rfl

theorem le_iff (one : x.Holds m) (two : y.Holds n) : x ≤ y ↔ m ≤ n := by
  rw [le_iff_value one.ne_nan two.ne_nan,one.value,two.value,Int.cast_le]

theorem lt_iff (one : x.Holds m) (two : y.Holds n) : x < y ↔ m < n := by
  rw [lt_iff_value one.ne_nan two.ne_nan,one.value,two.value,Int.cast_lt]

theorem min (one : x.Holds m) (two : y.Holds n) : (min x y).Holds (Min.min m n) := by
  rw [min_def,if_neg one.ne_nan]
  split
  · rename_i less
    rwa [Int.min_eq_right ((two.lt_iff one).mp less).le]
  · rename_i more
    rwa [Int.min_eq_left (not_lt.mp fun less => more ((two.lt_iff one).mpr less))]

theorem max (one : x.Holds m) (two : y.Holds n) : (max x y).Holds (Max.max m n) := by
  rw [max_def,if_neg one.ne_nan]
  split
  · rename_i less
    rwa [Int.max_eq_right ((one.lt_iff two).mp less).le]
  · rename_i more
    rwa [Int.max_eq_left (not_lt.mp fun less => more ((one.lt_iff two).mpr less))]

end Holds

theorem roundedRank_whole (small : n.natAbs ≤ 2 ^ 24) :
    roundedRank (n * 2 ^ Format.single.scale) = n * 2 ^ Format.single.scale := by
  have size : (n * 2 ^ Format.single.scale : Int).natAbs = n.natAbs * 2 ^ Format.single.scale := Int.natAbs_mul ..
  have bounded : n.natAbs * 2 ^ Format.single.scale ≤ Format.single.limit :=
    Nat.mul_le_mul_right _ (Nat.le_trans small (by decide))
  have fits : Fits Format.single.precision (n.natAbs * 2 ^ Format.single.scale) := fits_whole small (by decide) _
  unfold roundedRank
  rw [size,roundSignificant_of_fits fits (by decide),Nat.min_eq_left bounded,← size]
  unfold signed
  split
  · rename_i negative
    have := of_decide_eq_true negative
    omega
  · rename_i nonneg
    have := of_decide_eq_false (Bool.eq_false_iff.mpr nonneg)
    omega

namespace Holds

theorem add (one : x.Holds m) (two : y.Holds n) (left : m.natAbs ≤ 2 ^ 24)
    (right : n.natAbs ≤ 2 ^ 24) (small : (m + n).natAbs ≤ 2 ^ 24) :
    (x + y).Holds (m + n) := by
  obtain ⟨sx,a,first,rfl,rank⟩ := one.finite left
  obtain ⟨sy,b,second,rfl,rank'⟩ := two.finite right
  unfold Holds
  rw [rank_finite_add,rank,rank',← Int.add_mul,roundedRank_whole small]

theorem sub (one : x.Holds m) (two : y.Holds n) (left : m.natAbs ≤ 2 ^ 24)
    (right : n.natAbs ≤ 2 ^ 24) (small : (m - n).natAbs ≤ 2 ^ 24) :
    (x - y).Holds (m - n) := by
  rw [Int.sub_eq_add_neg] at small ⊢
  exact one.add two.neg left (by rwa [Int.natAbs_neg]) small

end Holds

end Single
end BoxLayout
