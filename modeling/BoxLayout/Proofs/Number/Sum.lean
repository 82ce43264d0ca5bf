import BoxLayout.Proofs.Number.Nonneg

namespace BoxLayout
open Number

-- Rounded sums keep the order of what is added, and a sum that started from zero never
-- turns into the negative zero.

namespace Single
variable {x y z : Single} {a b : Int}

def roundedRank (total : Int) : Int :=
  signed (decide (total < 0)) (min (roundSignificant Format.single.precision total.natAbs 1) Format.single.limit)

theorem roundedRank_mono (le : a ≤ b) : roundedRank a ≤ roundedRank b := by
  unfold roundedRank
  rcases Int.lt_or_le a 0 with negative | nonneg
  · rw [decide_eq_true negative]
    rcases Int.lt_or_le b 0 with negative' | nonneg'
    · rw [decide_eq_true negative']
      have rounded : roundSignificant Format.single.precision b.natAbs 1 ≤ roundSignificant Format.single.precision a.natAbs 1 :=
        roundSignificant_mono (by omega) (by decide) (by decide)
      simp only [signed,if_true]
      omega
    · rw [decide_eq_false (Int.not_lt.mpr nonneg')]
      simp only [signed,if_true,Bool.false_eq_true,if_false]
      omega
  · rw [decide_eq_false (Int.not_lt.mpr nonneg),decide_eq_false (Int.not_lt.mpr (Int.le_trans nonneg le))]
    have rounded : roundSignificant Format.single.precision a.natAbs 1 ≤ roundSignificant Format.single.precision b.natAbs 1 :=
      roundSignificant_mono (by omega) (by decide) (by decide)
    simp only [signed,Bool.false_eq_true,if_false]
    omega

theorem rank_bounded (rank : x.rank = some a) : -(Format.single.limit : Int) ≤ a ∧ a ≤ Format.single.limit := by
  cases x with
  | nan => cases rank
  | infinite negative =>
      cases rank
      unfold signed
      split <;> omega
  | finite negative quanta representable =>
      cases rank
      have small := representable.1
      unfold signed
      split <;> omega

theorem rank_finite_add {left right : Bool} {m n : Nat} (one : Representable m) (two : Representable n) :
    (finite left m one + finite right n two).rank = some (roundedRank (signed left m + signed right n)) := by
  change (add _ _).rank = _
  simp only [add]
  split
  · rename_i none
    rw [rank_zero,none]
    decide
  · obtain ⟨magnitude,found,rfl⟩ := rank_ofQuanta (decide (signed left m + signed right n < 0))
      (signed left m + signed right n).natAbs 1
    exact found

theorem add_le_add_right (le : x ≤ y) (number : x + z ≠ .nan) (number' : y + z ≠ .nan) : x + z ≤ y + z := by
  obtain ⟨a,b,left,right,less⟩ := le_iff.mp le
  obtain ⟨c,rank⟩ := exists_rank number
  obtain ⟨d,rank'⟩ := exists_rank number'
  refine le_iff.mpr ⟨c,d,rank,rank',?_⟩
  obtain ⟨low,high⟩ := rank_bounded rank
  obtain ⟨low',high'⟩ := rank_bounded rank'
  cases z with
  | nan =>
      cases x with
      | nan => cases left
      | infinite negative => exact absurd rfl number
      | finite negative m one => exact absurd rfl number
  | infinite sign =>
      have same : ∀ {w : Single}, w + .infinite sign ≠ .nan → w + .infinite sign = .infinite sign := by
        intro w defined
        cases w with
        | nan => exact absurd rfl defined
        | infinite negative =>
            change (if negative = sign then infinite negative else nan) = _
            by_cases equal : negative = sign
            · rw [if_pos equal,equal]
            · exact absurd (if_neg equal) defined
        | finite negative m one => rfl
      rw [same number] at rank
      rw [same number',rank] at rank'
      cases rank'
      exact Int.le_refl c
  | finite sign n two =>
      cases x with
      | nan => cases left
      | infinite negative =>
          cases rank
          cases left
          cases negative with
          | true => exact low'
          | false =>
              cases y with
              | nan => cases right
              | infinite negative' =>
                  cases rank'
                  exact (Option.some.inj right).symm ▸ less
              | finite negative' m' one' =>
                  have inside := one'.1
                  cases right
                  revert less
                  simp only [signed,Bool.false_eq_true,if_false]
                  split <;> omega
      | finite negative m one =>
          rw [rank_finite_add] at rank
          cases left
          cases rank
          cases y with
          | nan => cases right
          | infinite negative' =>
              cases rank'
              cases right
              cases negative' with
              | true =>
                  have inside := one.1
                  revert less
                  simp only [signed,if_true]
                  split <;> omega
              | false => exact high
          | finite negative' m' one' =>
              rw [rank_finite_add] at rank'
              cases right
              cases rank'
              exact roundedRank_mono (by omega)

theorem lt_of_lt_of_le (less : x < y) (le : y ≤ z) : x < z := by
  obtain ⟨a,b,left,middle,first⟩ := lt_iff.mp less
  obtain ⟨b',c,middle',right,second⟩ := le_iff.mp le
  rw [middle] at middle'
  cases middle'
  exact lt_iff.mpr ⟨a,c,left,right,Int.lt_of_lt_of_le first second⟩

theorem lt_of_le_of_lt (le : x ≤ y) (less : y < z) : x < z := by
  obtain ⟨a,b,left,middle,first⟩ := le_iff.mp le
  obtain ⟨b',c,middle',right,second⟩ := lt_iff.mp less
  rw [middle] at middle'
  cases middle'
  exact lt_iff.mpr ⟨a,c,left,right,Int.lt_of_le_of_lt first second⟩

theorem tenth_eq : ∃ n amount, tenth = .finite false n amount := ⟨_,_,rfl⟩

theorem add_tenth_ne_nan (number : x ≠ .nan) : x + tenth ≠ .nan := by
  obtain ⟨n,amount,equal⟩ := tenth_eq
  rw [equal]
  cases x with
  | nan => exact absurd rfl number
  | infinite negative => exact nofun
  | finite negative m one =>
      intro missing
      have rank : (finite negative m one + finite false n amount).rank = some _ := rank_finite_add one amount
      rw [missing] at rank
      cases rank

theorem add_comm (x y : Single) : x + y = y + x := by
  change add x y = add y x
  cases x with
  | nan => cases y <;> rfl
  | infinite left =>
      cases y with
      | nan => rfl
      | infinite right => cases left <;> cases right <;> rfl
      | finite right n two => rfl
  | finite left m one =>
      cases y with
      | nan => rfl
      | infinite right => rfl
      | finite right n two => simp only [add,Int.add_comm (signed left m),Bool.and_comm left]

theorem add_zero_of_ne (positive : x ≠ zero true) : x + 0 = x := by
  have zero_eq : (0 : Single) = zero false := by decide
  rw [zero_eq]
  cases x with
  | nan => rfl
  | infinite negative => rfl
  | finite negative m one =>
      change add _ _ = _
      have nothing : signed false 0 = 0 := rfl
      simp only [zero,add,nothing,Int.add_zero]
      by_cases none : m = 0
      · subst none
        cases negative with
        | true => exact absurd rfl positive
        | false => rfl
      · have some : signed negative m ≠ 0 := by cases negative <;> simp [signed,none]
        have sign : decide (signed negative m < 0) = negative := by
          cases negative with
          | true => exact decide_eq_true (by simp only [signed,if_true]; omega)
          | false => exact decide_eq_false (by simp only [signed,Bool.false_eq_true,if_false]; omega)
        have size : (signed negative m).natAbs = m := by cases negative <;> simp [signed]
        rw [if_neg some,sign,size]
        unfold ofQuanta
        simp only [roundSignificant_of_fits one.2 (by decide),dif_pos one.1]

theorem add_ne_negative_zero (positive : x ≠ zero true) : x + z ≠ zero true := by
  change add x z ≠ zero true
  cases x with
  | nan => cases z <;> exact nofun
  | infinite left =>
      cases z with
      | nan => exact nofun
      | infinite right => cases left <;> cases right <;> exact nofun
      | finite right n two => exact nofun
  | finite left m one =>
      cases z with
      | nan => exact nofun
      | infinite right => exact nofun
      | finite right n two =>
          simp only [add]
          split
          · rename_i none
            intro both
            have signs : (left && right) = true := congrArg isNegative both
            obtain ⟨rfl,rfl⟩ := Bool.and_eq_true_iff.mp signs
            have nothing : m = 0 := by
              simp only [signed,if_true] at none
              omega
            subst nothing
            exact positive rfl
          · rename_i some
            intro both
            have rounded : 1 ≤ roundSignificant Format.single.precision (signed left m + signed right n).natAbs 1 :=
              le_roundSignificant ⟨1,0,by decide,rfl⟩ (by omega) (by decide) (by decide)
            unfold ofQuanta at both
            dsimp only at both
            split at both
            · have quanta : roundSignificant Format.single.precision (signed left m + signed right n).natAbs 1 = 0 := by
                injection both
              omega
            · cases both

theorem ne_nan_of_add (number : x + y ≠ .nan) : x ≠ .nan ∧ y ≠ .nan := by
  constructor
  · rintro rfl
    cases y <;> exact number rfl
  · rintro rfl
    cases x <;> exact number rfl

theorem add_le_add_left (le : x ≤ y) (number : z + x ≠ .nan) (number' : z + y ≠ .nan) : z + x ≤ z + y := by
  rw [add_comm z x,add_comm z y] at *
  exact add_le_add_right le number number'

theorem le_add_of_nonneg (number : x + z ≠ .nan) (right : 0 ≤ z) : x ≤ x + z := by
  have known := (ne_nan_of_add number).1
  have start : x ≤ x + 0 := by
    by_cases negative : x = zero true
    · subst negative
      decide
    · rw [add_zero_of_ne negative]
      exact le_refl known
  exact le_trans start (add_le_add_left right (ne_nan_of_le start).2 number)

theorem le_add_nonneg (left : 0 ≤ x) (right : 0 ≤ z) : x ≤ x + z :=
  le_add_of_nonneg (ne_nan_of_le (nonneg_add left right)).2 right

end Single
end BoxLayout
