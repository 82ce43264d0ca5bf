import BoxLayout.Forest.Bounds
import BoxLayout.Proofs.Number.Rounding

namespace BoxLayout
open Number

-- The order of single-precision numbers as layout uses it. Not-a-number stands
-- outside of it, so a fact that has none of it says so.

namespace Single
variable {x y z : Single} {m n : Nat} {negative : Bool}

theorem le_iff : x ≤ y ↔ ∃ a b, x.rank = some a ∧ y.rank = some b ∧ a ≤ b := by
  change Precedes (· ≤ ·) x y ↔ _
  unfold Precedes
  cases x.rank <;> cases y.rank <;> simp

theorem lt_iff : x < y ↔ ∃ a b, x.rank = some a ∧ y.rank = some b ∧ a < b := by
  change Precedes (· < ·) x y ↔ _
  unfold Precedes
  cases x.rank <;> cases y.rank <;> simp

theorem exists_rank (number : x ≠ .nan) : ∃ a, x.rank = some a := by
  cases x with
  | nan => exact absurd rfl number
  | infinite negative => exact ⟨_,rfl⟩
  | finite negative quanta representable => exact ⟨_,rfl⟩

theorem ne_nan_of_le (le : x ≤ y) : x ≠ .nan ∧ y ≠ .nan := by
  obtain ⟨a,b,left,right,_⟩ := le_iff.mp le
  constructor
  · rintro rfl
    cases left
  · rintro rfl
    cases right

theorem le_of_not_lt (left : x ≠ .nan) (right : y ≠ .nan) (notLess : ¬y < x) : x ≤ y := by
  obtain ⟨a,left⟩ := exists_rank left
  obtain ⟨b,right⟩ := exists_rank right
  refine le_iff.mpr ⟨a,b,left,right,?_⟩
  rcases Int.lt_or_le b a with more | le
  · exact absurd (lt_iff.mpr ⟨b,a,right,left,more⟩) notLess
  · exact le

theorem not_lt_of_le (le : x ≤ y) : ¬y < x := by
  intro less
  obtain ⟨a,b,left,right,le⟩ := le_iff.mp le
  obtain ⟨a',b',right',left',less⟩ := lt_iff.mp less
  rw [left] at left'
  rw [right] at right'
  cases left'
  cases right'
  omega

theorem le_of_lt (less : x < y) : x ≤ y := by
  obtain ⟨a,b,left,right,less⟩ := lt_iff.mp less
  exact le_iff.mpr ⟨a,b,left,right,Int.le_of_lt less⟩

theorem le_refl (number : x ≠ .nan) : x ≤ x := by
  obtain ⟨a,found⟩ := exists_rank number
  exact le_iff.mpr ⟨a,a,found,found,Int.le_refl a⟩

theorem le_trans (one : x ≤ y) (two : y ≤ z) : x ≤ z := by
  obtain ⟨a,b,left,middle,first⟩ := le_iff.mp one
  obtain ⟨b',c,middle',right,second⟩ := le_iff.mp two
  rw [middle] at middle'
  cases middle'
  exact le_iff.mpr ⟨a,c,left,right,Int.le_trans first second⟩

theorem max_def (x y : Single) : max x y = if x = .nan then y else if x < y then y else x := rfl
theorem min_def (x y : Single) : min x y = if x = .nan then y else if y < x then y else x := rfl

theorem le_max_right (number : y ≠ .nan) : y ≤ max x y := by
  rw [max_def]
  split
  · exact le_refl number
  · rename_i left
    split
    · exact le_refl number
    · rename_i notLess
      exact le_of_not_lt number left notLess

theorem max_le (left : x ≤ z) (right : y ≤ z) : max x y ≤ z := by
  rw [max_def]
  split
  · exact right
  · split
    · exact right
    · exact left

theorem min_le_right (number : y ≠ .nan) : min x y ≤ y := by
  rw [min_def]
  split
  · exact le_refl number
  · rename_i left
    split
    · exact le_refl number
    · rename_i notLess
      exact le_of_not_lt left number notLess

theorem rank_ofQuanta (negative : Bool) (numerator denominator : Nat) : ∃ magnitude,
    (ofQuanta negative numerator denominator).rank = some (signed negative magnitude) ∧
      magnitude = min (roundSignificant Format.single.precision numerator denominator) Format.single.limit := by
  unfold ofQuanta
  dsimp only
  split
  · rename_i bounded
    exact ⟨_,rfl,(Nat.min_eq_left (Nat.le_of_lt bounded)).symm⟩
  · rename_i unbounded
    exact ⟨_,rfl,(Nat.min_eq_right (Nat.le_of_not_lt unbounded)).symm⟩

theorem nonneg_iff : 0 ≤ x ↔ ∃ a, x.rank = some a ∧ 0 ≤ a := by
  have zero : (0 : Single).rank = some 0 := by decide
  rw [le_iff]
  constructor
  · rintro ⟨a,b,left,right,le⟩
    rw [zero] at left
    cases left
    exact ⟨b,right,le⟩
  · rintro ⟨a,right,le⟩
    exact ⟨0,a,zero,right,le⟩

-- A total that is rounded stays on the side of a representable count it was on.
theorem rank_ofQuanta_le {total : Nat} (representable : Representable m) (below : total ≤ m) :
    ∃ a, (ofQuanta false total 1).rank = some a ∧ a ≤ m := by
  obtain ⟨magnitude,rank,rfl⟩ := rank_ofQuanta false total 1
  have rounded : roundSignificant Format.single.precision total 1 ≤ m := roundSignificant_le representable.2 (by omega)
  exact ⟨_,rank,Int.ofNat_le.mpr (Nat.le_trans (Nat.min_le_left ..) rounded)⟩

theorem le_rank_ofQuanta {total : Nat} (representable : Representable m) (above : m ≤ total) :
    ∃ a, (ofQuanta false total 1).rank = some a ∧ (m : Int) ≤ a := by
  obtain ⟨magnitude,rank,rfl⟩ := rank_ofQuanta false total 1
  have rounded : m ≤ roundSignificant Format.single.precision total 1 :=
    le_roundSignificant representable.2 (by omega) (by decide) (by decide)
  exact ⟨_,rank,Int.ofNat_le.mpr (Nat.le_min.mpr ⟨rounded,Nat.le_of_lt representable.1⟩)⟩

theorem signed_of_nonneg (nonneg : 0 ≤ signed negative m) : signed negative m = m := by
  cases negative with
  | false => rfl
  | true =>
      simp only [signed,if_true] at nonneg ⊢
      omega

theorem rank_zero (negative : Bool) : (zero negative).rank = some 0 := by cases negative <;> rfl

theorem sub_le {amount : Representable n} (positive : 0 ≤ x) : x - .finite false n amount ≤ x := by
  obtain ⟨a,rank,nonneg⟩ := nonneg_iff.mp positive
  cases x with
  | nan => cases rank
  | infinite negative => exact le_iff.mpr ⟨a,a,rank,rank,Int.le_refl a⟩
  | finite negative m representable =>
      cases rank
      have whole := signed_of_nonneg nonneg
      have taken : signed true n = -n := rfl
      suffices below : ∃ c, (Single.finite negative m representable - .finite false n amount).rank = some c ∧ c ≤ m by
        obtain ⟨c,found,le⟩ := below
        exact le_iff.mpr ⟨c,_,found,congrArg some whole,le⟩
      change ∃ c, (add (.finite negative m representable) (.finite true n amount)).rank = some c ∧ c ≤ m
      simp only [add,whole,taken]
      split
      · exact ⟨0,rank_zero _,by omega⟩
      · by_cases less : (m : Int) + -n < 0
        · obtain ⟨magnitude,found,_⟩ := rank_ofQuanta true ((m : Int) + -n).natAbs 1
          rw [decide_eq_true less]
          refine ⟨_,found,?_⟩
          simp only [signed,if_true]
          omega
        · rw [decide_eq_false less]
          exact rank_ofQuanta_le representable (by omega)

theorem le_add {amount : Representable n} (positive : 0 ≤ x) : x ≤ x + .finite false n amount := by
  obtain ⟨a,rank,nonneg⟩ := nonneg_iff.mp positive
  cases x with
  | nan => cases rank
  | infinite negative => exact le_iff.mpr ⟨a,a,rank,rank,Int.le_refl a⟩
  | finite negative m representable =>
      cases rank
      have whole := signed_of_nonneg nonneg
      have given : signed false n = n := rfl
      suffices above : ∃ c, (Single.finite negative m representable + .finite false n amount).rank = some c ∧ m ≤ c by
        obtain ⟨c,found,le⟩ := above
        exact le_iff.mpr ⟨_,c,congrArg some whole,found,le⟩
      change ∃ c, (add (.finite negative m representable) (.finite false n amount)).rank = some c ∧ m ≤ c
      simp only [add,whole,given]
      split
      · exact ⟨0,rank_zero _,by omega⟩
      · rw [decide_eq_false (by omega : ¬(m : Int) + n < 0)]
        exact le_rank_ofQuanta representable (by omega)

theorem half_eq : ∃ n amount, half = .finite false n amount := ⟨_,_,rfl⟩

end Single

section Bounds
variable {value minimum maximum size : Single}

theorem IsSet.number (set : IsSet value) : value ≠ .nan := (Single.ne_nan_of_le set).2

theorem le_constrain (set : IsSet minimum) : minimum ≤ constrain value minimum maximum := by
  unfold constrain
  dsimp only
  rw [if_pos set]
  exact Single.le_max_right set.number

theorem constrain_le (set : IsSet maximum) (fits : ¬maximum < minimum) : constrain value minimum maximum ≤ maximum := by
  unfold constrain
  dsimp only
  rw [if_pos set]
  have capped := Single.min_le_right (x := value) set.number
  split
  · rename_i lower
    exact Single.max_le capped (Single.le_of_not_lt lower.number set.number fits)
  · exact capped

structure Between (minimum maximum size : Single) : Prop where
  low : IsSet minimum → minimum ≤ size
  high : IsSet maximum → ¬maximum < minimum → size ≤ maximum

theorem constrain_between : Between minimum maximum (constrain value minimum maximum) := ⟨le_constrain,constrain_le⟩

theorem not_lt_sub_tolerance (set : IsSet minimum) (above : minimum ≤ size) : ¬size < minimum - boundsTolerance := by
  obtain ⟨n,amount,half⟩ := Single.half_eq
  rw [boundsTolerance,half]
  exact Single.not_lt_of_le (Single.le_trans (Single.sub_le set) above)

theorem not_add_tolerance_lt (set : IsSet maximum) (below : size ≤ maximum) : ¬maximum + boundsTolerance < size := by
  obtain ⟨n,amount,half⟩ := Single.half_eq
  rw [boundsTolerance,half]
  exact Single.not_lt_of_le (Single.le_trans below (Single.le_add set))

end Bounds
end BoxLayout
