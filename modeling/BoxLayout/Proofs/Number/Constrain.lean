import BoxLayout.Proofs.Number.Sum

namespace BoxLayout
open Number

-- Bringing a number between its bounds keeps the order and does nothing the second time;
-- either bound may be unset, and the minimum may be above the maximum.

namespace Single
variable {x y z : Single} {n : Nat}

theorem same_iff : x.Same y ↔ ∃ a, x.rank = some a ∧ y.rank = some a := by
  unfold Same Precedes
  cases x.rank <;> cases y.rank <;> simp [eq_comm]

theorem same_of_le (le : x ≤ y) (ge : y ≤ x) : x.Same y := by
  obtain ⟨a,b,left,right,less⟩ := le_iff.mp le
  obtain ⟨b',a',right',left',more⟩ := le_iff.mp ge
  rw [left] at left'
  rw [right] at right'
  cases left'
  cases right'
  exact same_iff.mpr ⟨a,left,right.trans (congrArg some (Int.le_antisymm more less))⟩

theorem Same.symm (same : x.Same y) : y.Same x := by
  obtain ⟨a,left,right⟩ := same_iff.mp same
  exact same_iff.mpr ⟨a,right,left⟩

theorem Same.le (same : x.Same y) : x ≤ y := by
  obtain ⟨a,left,right⟩ := same_iff.mp same
  exact le_iff.mpr ⟨a,a,left,right,Int.le_refl a⟩

theorem same_self (number : x ≠ .nan) : x.Same x := same_of_le (le_refl number) (le_refl number)

theorem min_le_left (number : x ≠ .nan) : min x y ≤ x := by
  rw [min_def,if_neg number]
  split
  · rename_i less
    exact le_of_lt less
  · exact le_refl number

theorem le_max_left (number : x ≠ .nan) : x ≤ max x y := by
  rw [max_def,if_neg number]
  split
  · rename_i less
    exact le_of_lt less
  · exact le_refl number

theorem le_min (left : z ≤ x) (right : z ≤ y) : z ≤ min x y := by
  rw [min_def]
  split
  · exact right
  · split
    · exact right
    · exact left

theorem min_eq_left (le : x ≤ y) : min x y = x := by
  rw [min_def,if_neg (ne_nan_of_le le).1,if_neg (not_lt_of_le le)]

theorem max_eq_left (le : y ≤ x) : max x y = x := by
  rw [max_def,if_neg (ne_nan_of_le le).2,if_neg (not_lt_of_le le)]

theorem max_eq_right (less : x < y) : max x y = y := by
  rw [max_def,if_neg (ne_nan_of_le (le_of_lt less)).1,if_pos less]

theorem min_eq_right (less : y < x) : min x y = y := by
  rw [min_def,if_neg (ne_nan_of_le (le_of_lt less)).2,if_pos less]

theorem min_mono (le : x ≤ y) (number : z ≠ .nan) : min x z ≤ min y z :=
  le_min (le_trans (min_le_left (ne_nan_of_le le).1) le) (min_le_right number)

theorem max_mono (le : x ≤ y) (number : z ≠ .nan) : max x z ≤ max y z :=
  max_le (le_trans le (le_max_left (ne_nan_of_le le).2)) (le_max_right number)

theorem rank_add_zero (x : Single) : (x + 0).rank = x.rank := by
  by_cases negative : x = zero true
  · subst negative
    decide
  · rw [add_zero_of_ne negative]

theorem positivePart_add_le (nonneg : 0 ≤ x) (lower : ¬0 < y) : (x + y).positivePart ≤ x := by
  unfold positivePart
  split
  · rename_i positive
    have number := (ne_nan_of_le (le_of_lt positive)).2
    have known := (ne_nan_of_le nonneg).2
    obtain ⟨a,rank⟩ := exists_rank known
    have back : x + 0 ≤ x := le_iff.mpr ⟨a,a,(rank_add_zero x).trans rank,rank,Int.le_refl a⟩
    have down := le_of_not_lt (ne_nan_of_add number).2 (by decide) lower
    exact le_trans (add_le_add_left down number (ne_nan_of_le back).1) back
  · exact nonneg

theorem same_positivePart (nonneg : 0 ≤ x) : (x + 0).positivePart.Same x := by
  refine same_of_le (positivePart_add_le nonneg (by decide)) ?_
  obtain ⟨a,rank,positive⟩ := nonneg_iff.mp nonneg
  have whole : (x + 0).rank = some a := (rank_add_zero x).trans rank
  unfold positivePart
  split
  · exact le_iff.mpr ⟨a,a,rank,whole,Int.le_refl a⟩
  · rename_i none
    have zero : (0 : Single).rank = some 0 := by decide
    refine le_iff.mpr ⟨a,0,rank,zero,Int.not_lt.mp fun some => none ?_⟩
    exact lt_iff.mpr ⟨0,a,zero,whole,some⟩

theorem pos_iff : 0 < x ↔ ∃ a, x.rank = some a ∧ 0 < a := by
  have zero : (0 : Single).rank = some 0 := by decide
  rw [lt_iff]
  constructor
  · rintro ⟨a,b,left,right,less⟩
    rw [zero] at left
    cases left
    exact ⟨b,right,less⟩
  · rintro ⟨a,right,less⟩
    exact ⟨0,a,zero,right,less⟩

theorem rank_le_of_not_pos {a : Int} (lower : ¬0 < x) (rank : x.rank = some a) : a ≤ 0 :=
  Int.not_lt.mp fun more => lower (pos_iff.mpr ⟨a,rank,more⟩)

theorem isNegative_ofNat (n : Nat) : (ofNat n).isNegative = false := by
  unfold ofNat ofRatio ofQuanta
  dsimp only
  split <;> rfl

theorem nonneg_of_unsigned (number : x ≠ .nan) (unsigned : x.isNegative = false) : 0 ≤ x := by
  cases x with
  | nan => exact absurd rfl number
  | infinite negative =>
      obtain rfl : negative = false := unsigned
      decide
  | finite negative quanta representable =>
      obtain rfl : negative = false := unsigned
      exact nonneg_iff.mpr ⟨quanta,rfl,Int.natCast_nonneg quanta⟩

theorem isNegative_of_pos (positive : 0 < x) : x.isNegative = false := by
  obtain ⟨a,rank,above⟩ := pos_iff.mp positive
  cases x with
  | nan => rfl
  | infinite negative =>
      cases negative with
      | false => rfl
      | true =>
          cases rank
          exact absurd above (by decide)
  | finite negative quanta representable =>
      cases negative with
      | false => rfl
      | true =>
          cases rank
          simp only [signed,if_true] at above
          omega

-- Signs cancel, also where a quotient overflows or is none.
theorem isNegative_div (left : x.isNegative = false) (right : y.isNegative = false) : (x / y).isNegative = false := by
  change (div x y).isNegative = false
  cases x with
  | nan => cases y <;> rfl
  | infinite negative =>
      obtain rfl : negative = false := left
      cases y with
      | nan => rfl
      | infinite negative' => rfl
      | finite negative' n two =>
          obtain rfl : negative' = false := right
          rfl
  | finite negative m one =>
      obtain rfl : negative = false := left
      cases y with
      | nan => rfl
      | infinite negative' =>
          obtain rfl : negative' = false := right
          rfl
      | finite negative' n two =>
          obtain rfl : negative' = false := right
          simp only [div]
          split
          · split <;> rfl
          · unfold ofRatio ofQuanta
            dsimp only
            split <;> rfl

theorem not_pos_div (lower : ¬0 < x) (unsigned : y.isNegative = false) : ¬0 < x / y := by
  intro positive
  obtain ⟨c,found,above⟩ := pos_iff.mp positive
  change (div x y).rank = some c at found
  cases y with
  | nan => cases x <;> cases found
  | infinite right =>
      cases x with
      | finite left m one =>
          rw [div,rank_zero] at found
          cases found
          exact absurd above (by decide)
      | _ => cases found
  | finite right n two =>
      obtain rfl : right = false := unsigned
      cases x with
      | nan => cases found
      | infinite left =>
          cases left with
          | true => cases found; exact absurd above (by decide)
          | false => exact lower (by decide)
      | finite left m one =>
          have below := rank_le_of_not_pos lower rfl
          have nothing : left = false → m = 0 := by
            rintro rfl
            simp only [signed,Bool.false_eq_true,if_false] at below
            omega
          simp only [div] at found
          cases left with
          | true =>
              split at found
              · split at found
                · cases found
                · cases found
                  exact absurd above (by decide)
              · obtain ⟨magnitude,rank,_⟩ := rank_ofQuanta true (m * 2 ^ Format.single.scale) n
                rw [bne_comm,Bool.bne_true] at found
                cases found.symm.trans rank
                simp only [signed,if_true] at above
                omega
          | false =>
              obtain rfl := nothing rfl
              split at found
              · cases found
              · obtain ⟨magnitude,rank,rounded⟩ := rank_ofQuanta false (0 * 2 ^ Format.single.scale) n
                have none : roundSignificant Format.single.precision (0 * 2 ^ Format.single.scale) n ≤ 0 :=
                  roundSignificant_le (fits_zero _) (by omega)
                cases found.symm.trans rank
                simp only [signed,Bool.false_eq_true,if_false] at above
                omega

end Single

section Bounds
variable {value wanted minimum maximum : Single}

theorem constrain_unset (low : ¬IsSet minimum) (high : ¬IsSet maximum) : constrain value minimum maximum = value := by
  unfold constrain
  dsimp only
  rw [if_neg high,if_neg low]

theorem constrain_mono (le : value ≤ wanted) : constrain value minimum maximum ≤ constrain wanted minimum maximum := by
  have capped : (if IsSet maximum then min value maximum else value) ≤ if IsSet maximum then min wanted maximum else wanted := by
    split
    · rename_i upper
      exact Single.min_mono le upper.number
    · exact le
  unfold constrain
  dsimp only
  split
  · rename_i lower
    exact Single.max_mono capped lower.number
  · exact capped

theorem constrain_same (same : value.Same wanted) : (constrain value minimum maximum).Same (constrain wanted minimum maximum) :=
  Single.same_of_le (constrain_mono same.le) (constrain_mono same.symm.le)

theorem constrain_constrain :
    constrain (constrain value minimum maximum) minimum maximum = constrain value minimum maximum := by
  unfold constrain
  dsimp only
  by_cases high : IsSet maximum
  · simp only [if_pos high]
    have capped := Single.min_le_right (x := value) high.number
    generalize min value maximum = size at capped
    have number' := (Single.ne_nan_of_le capped).1
    by_cases low : IsSet minimum
    · simp only [if_pos low]
      have raised := Single.le_max_right (x := size) low.number
      by_cases beyond : maximum < max size minimum
      · -- only a minimum above the maximum leads here, and it wins again
        have lifted : size < minimum := Decidable.of_not_not fun stays => by
          rw [Single.max_eq_left (Single.le_of_not_lt low.number number' stays)] at beyond
          exact Single.not_lt_of_le capped beyond
        rw [Single.max_eq_right lifted] at beyond ⊢
        rw [Single.min_eq_right beyond,Single.max_eq_right beyond]
      · have within := Single.le_of_not_lt (Single.ne_nan_of_le raised).2 high.number beyond
        rw [Single.min_eq_left within,Single.max_eq_left raised]
    · simp only [if_neg low]
      exact Single.min_eq_left capped
  · simp only [if_neg high]
    by_cases low : IsSet minimum
    · simp only [if_pos low]
      exact Single.max_eq_left (Single.le_max_right low.number)
    · simp only [if_neg low]

theorem constrain_mono_minimum {lower : Single} (number : value ≠ .nan) (raises : IsSet minimum → minimum ≤ lower) :
    constrain value minimum maximum ≤ constrain value lower maximum := by
  have capped : (if IsSet maximum then min value maximum else value) ≠ .nan := by
    split
    · exact (Single.ne_nan_of_le (Single.min_le_left number)).1
    · exact number
  unfold constrain
  dsimp only
  generalize (if IsSet maximum then min value maximum else value) = size at capped
  by_cases low : IsSet minimum
  · have raised := raises low
    have set : IsSet lower := Single.le_trans low raised
    rw [if_pos low,if_pos set]
    exact Single.max_le (Single.le_max_left capped) (Single.le_trans raised (Single.le_max_right set.number))
  · rw [if_neg low]
    split
    · exact Single.le_max_left capped
    · exact Single.le_refl capped

theorem constrain_le_of_le {upper : Single} (le : value ≤ upper) (low : IsSet minimum → minimum ≤ upper) :
    constrain value minimum maximum ≤ upper := by
  have capped : (if IsSet maximum then min value maximum else value) ≤ upper := by
    split
    · exact Single.le_trans (Single.min_le_left (Single.ne_nan_of_le le).1) le
    · exact le
  unfold constrain
  dsimp only
  split
  · rename_i lower
    exact Single.max_le capped (low lower)
  · exact capped

end Bounds
end BoxLayout
