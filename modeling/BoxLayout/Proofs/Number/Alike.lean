import BoxLayout.Proofs.Number.Value

namespace BoxLayout.Single

-- The same number, or two zeros. No sum and no difference tells such numbers apart, but
-- for the sign of another zero.

variable {x x' y y' : Single}

theorem eq_of_signed {left right : Bool} {m n : Nat} (same : signed left m = signed right n) :
    m = n ∧ (m = 0 ∨ left = right) := by
  cases left <;> cases right <;> simp only [signed,if_true,Bool.false_eq_true,if_false] at same <;> simp <;> omega

def Alike (x y : Single) : Prop := x.rank = y.rank

namespace Alike

theorem refl (x : Single) : Alike x x := rfl
theorem symm (alike : Alike x y) : Alike y x := Eq.symm alike
theorem trans {z : Single} (one : Alike x y) (two : Alike y z) : Alike x z := Eq.trans one two

theorem eq_or_zeros (alike : Alike x y) : x = y ∨ ∃ left right, x = zero left ∧ y = zero right := by
  have some : Number.Format.single.limit ≠ 0 := by decide
  cases x with
  | nan =>
      cases y with
      | nan => exact .inl rfl
      | _ => cases alike
  | infinite left =>
      cases y with
      | nan => cases alike
      | infinite right =>
          have sign := (eq_of_signed (Option.some.inj alike)).2.resolve_left some
          exact .inl (congrArg infinite sign)
      | finite right n two => exact absurd (eq_of_signed (Option.some.inj alike)).1 (Nat.ne_of_gt two.1)
  | finite left m one =>
      cases y with
      | nan => cases alike
      | infinite right => exact absurd (eq_of_signed (Option.some.inj alike)).1 (Nat.ne_of_lt one.1)
      | finite right n two =>
          obtain ⟨rfl,rfl | rfl⟩ := eq_of_signed (Option.some.inj alike)
          · exact .inr ⟨left,right,rfl,rfl⟩
          · exact .inl rfl

end Alike

theorem rank_zero_add (negative : Bool) (x : Single) : (zero negative + x).rank = x.rank := by
  cases x with
  | nan => rfl
  | infinite right => rfl
  | finite right n two =>
      have swapped : (zero false + finite right n two).rank = (finite right n two).rank := by
        rw [add_comm]
        exact rank_add_zero _
      have nothing : signed negative 0 = signed false 0 := by cases negative <;> rfl
      rw [← swapped]
      exact (rank_finite_add ⟨by decide,Number.fits_zero _⟩ two).trans
        (nothing ▸ (rank_finite_add ⟨by decide,Number.fits_zero _⟩ two).symm)

theorem alike_add_zero (x : Single) : Alike x (x + 0) := (rank_add_zero x).symm

namespace Alike

theorem add_right (alike : Alike x x') (y : Single) : Alike (x + y) (x' + y) := by
  rcases alike.eq_or_zeros with rfl | ⟨left,right,rfl,rfl⟩
  · exact refl _
  · exact (rank_zero_add left y).trans (rank_zero_add right y).symm

theorem add (one : Alike x x') (two : Alike y y') : Alike (x + y) (x' + y') := by
  have other := two.add_right x'
  rw [add_comm y,add_comm y'] at other
  exact (one.add_right y).trans other

theorem neg (alike : Alike x x') : Alike (-x) (-x') := by
  unfold Alike at *
  rw [rank_neg,rank_neg,alike]

theorem sub (one : Alike x x') (two : Alike y y') : Alike (x - y) (x' - y') := one.add two.neg

theorem positivePart (alike : Alike x y) : x.positivePart = y.positivePart := by
  rcases alike.eq_or_zeros with rfl | ⟨left,right,rfl,rfl⟩
  · rfl
  · cases left <;> cases right <;> rfl

end Alike
end BoxLayout.Single
