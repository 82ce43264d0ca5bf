import BoxLayout.Layout.Split
import BoxLayout.Proofs.Number.Order

namespace BoxLayout

-- What keeps a number from becoming negative. Rounding does, and where one operand
-- of a maximum is not-a-number the other stands.

namespace Single
variable {x y : Single}

theorem nonneg_zero : (0 : Single) ≤ 0 := by decide

theorem nonneg_positivePart : 0 ≤ x.positivePart := by
  unfold positivePart
  split
  · rename_i positive
    exact le_of_lt positive
  · exact nonneg_zero

theorem nonneg_max_left (left : 0 ≤ x) : 0 ≤ max x y := by
  rw [max_def]
  split
  · rename_i missing
    exact absurd missing (ne_nan_of_le left).2
  · split
    · rename_i less
      exact le_trans left (le_of_lt less)
    · exact left

theorem nonneg_max_right (right : 0 ≤ y) : 0 ≤ max x y := le_trans right (le_max_right (ne_nan_of_le right).2)

theorem nonneg_min (left : 0 ≤ x) (right : 0 ≤ y) : 0 ≤ min x y := by
  rw [min_def]
  split
  · exact right
  · split
    · exact right
    · exact left

theorem nonneg_add (left : 0 ≤ x) (right : 0 ≤ y) : 0 ≤ x + y := by
  obtain ⟨a,rank,positive⟩ := nonneg_iff.mp left
  obtain ⟨b,rank',positive'⟩ := nonneg_iff.mp right
  cases x with
  | nan => cases rank
  | infinite negative =>
      cases y with
      | nan => cases rank'
      | infinite negative' =>
          cases negative with
          | true => cases rank; exact absurd positive (by decide)
          | false =>
              cases negative' with
              | true => cases rank'; exact absurd positive' (by decide)
              | false => exact left
      | finite negative' n representable' => exact left
  | finite negative m representable =>
      cases y with
      | nan => cases rank'
      | infinite negative' => exact right
      | finite negative' n representable' =>
          cases rank
          cases rank'
          change 0 ≤ add _ _
          simp only [add]
          split
          · exact nonneg_iff.mpr ⟨0,rank_zero _,Int.le_refl 0⟩
          · rw [decide_eq_false (by omega : ¬signed negative m + signed negative' n < 0)]
            obtain ⟨magnitude,found,_⟩ := rank_ofQuanta false (signed negative m + signed negative' n).natAbs 1
            exact nonneg_iff.mpr ⟨_,found,Int.natCast_nonneg magnitude⟩

end Single

theorem nonneg_largest (values : List Single) : 0 ≤ largest values := by
  have folded : ∀ start : Single, 0 ≤ start → 0 ≤ values.foldl max start := by
    induction values with
    | nil => exact fun _ nonneg => nonneg
    | cons value rest ih => exact fun _ nonneg => ih _ (Single.nonneg_max_left nonneg)
  exact folded 0 Single.nonneg_zero

theorem Spacing.start_mem_sides (s : Spacing) (axis : Axis) : s.start axis ∈ s.sides := by
  cases axis <;> simp [sides,start]

theorem Spacing.finish_mem_sides (s : Spacing) (axis : Axis) : s.finish axis ∈ s.sides := by
  cases axis <;> simp [sides,finish]

theorem nonneg_total (s : Spacing) (axis : Axis) (start : 0 ≤ s.start axis) (finish : 0 ≤ s.finish axis) : 0 ≤ s.total axis :=
  Single.nonneg_add start finish

variable {value minimum maximum : Single}

theorem nonneg_constrain (nonneg : 0 ≤ value) : 0 ≤ constrain value minimum maximum := by
  have capped : 0 ≤ (if IsSet maximum then min value maximum else value) := by
    split
    · rename_i upper
      exact Single.nonneg_min nonneg upper
    · exact nonneg
  unfold constrain
  dsimp only
  split
  · exact Single.nonneg_max_left capped
  · exact capped

end BoxLayout
