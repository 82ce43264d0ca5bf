import BoxLayout.Proofs.Layout.PlacedRuns

namespace BoxLayout
open Single

-- Children of a run one behind the other. Every position comes of rounded sums that may
-- overflow, and sizes may be anything; what is not a number is never past another.

namespace Run
variable {axis : Axis} {space : Single} {alignment : Alignment} {wrap last : Bool} {run : Run}

theorem isNegative_gap : (run.shares space alignment wrap last).gap.isNegative = false := by
  unfold shares
  dsimp only
  split
  · rename_i leftover
    split
    · rfl
    · split
      · rfl
      · cases alignment with
        | justify =>
            dsimp only
            split
            · exact isNegative_div (isNegative_of_pos leftover) (isNegative_ofNat _)
            · rfl
        | _ => rfl
  · split <;> rfl

end Run

namespace Box
variable {axis : Axis} {gap : Single} {b p q : Box}

-- A child begins where the one before it ends, past the margins of both and the gap.
def Follows (axis : Axis) (gap : Single) (p q : Box) : Prop :=
  q.start axis = p.start axis + (p.extent axis + p.margins.finish axis) + (q.margins.start axis + gap)

theorem extent_clippedTo_le (clip : Option Span) (number : b.extent axis ≠ .nan) :
    (b.clippedTo axis clip).extent axis ≤ b.extent axis := by
  unfold clippedTo
  split
  · exact le_refl number
  · dsimp only
    split
    · rename_i beyond
      rw [extent_withExtent,if_pos rfl]
      exact le_of_lt beyond
    · exact le_refl number

-- Rounding keeps the order, so what lies between two children keeps them apart wherever the
-- sums are numbers, and a clip only takes from the first.
theorem Follows.apart (follows : Follows axis gap p q) (unsigned : gap.isNegative = false) (after : 0 ≤ p.margins.finish axis)
    (before : 0 ≤ q.margins.start axis) (clip : Option Span) : ¬q.start axis < p.start axis + (p.clippedTo axis clip).extent axis := by
  intro less
  obtain ⟨number,ended⟩ := ne_nan_of_le (le_of_lt less)
  rw [follows] at number
  obtain ⟨behind,between⟩ := ne_nan_of_add number
  obtain ⟨_,outer⟩ := ne_nan_of_add behind
  have apart : 0 ≤ q.margins.start axis + gap := nonneg_add before (nonneg_of_unsigned (ne_nan_of_add between).2 unsigned)
  have shorter : (p.clippedTo axis clip).extent axis ≤ p.extent axis + p.margins.finish axis :=
    le_trans (extent_clippedTo_le clip (ne_nan_of_add outer).1) (le_add_of_nonneg outer after)
  have reached : p.start axis + (p.clippedTo axis clip).extent axis ≤ p.start axis + (p.extent axis + p.margins.finish axis) :=
    add_le_add_left shorter ended behind
  have begun : p.start axis + (p.extent axis + p.margins.finish axis) ≤ q.start axis := by
    rw [follows]
    exact le_add_of_nonneg number apart
  exact not_lt_of_le (le_trans reached begun) less

end Box

theorem Run.Shares.isChain_placeFrom (shares : Shares) (axis : Axis) (bonus cursor gap : Single) {xs : List Box}
    (flows : ∀ b ∈ xs, b.flags.inFlow = true) : (shares.placeFrom axis bonus cursor gap xs).IsChain (Box.Follows axis shares.gap) := by
  induction xs generalizing cursor gap with
  | nil => exact .nil
  | cons b rest ih =>
      obtain ⟨here,later⟩ := List.forall_mem_cons.mp flows
      have placed := ih (cursor + (b.margins.start axis + gap) + (shares.final axis bonus b + b.margins.finish axis)) shares.gap later
      rw [placeFrom_cons here]
      cases rest with
      | nil => exact .singleton _
      | cons c rest =>
          rw [placeFrom_cons (later c List.mem_cons_self)] at placed ⊢
          refine .cons_cons ?_ placed
          simp only [Box.Follows,Box.start_withExtent,Box.start_withStart,Box.extent_withExtent,if_true]
          rfl

end BoxLayout
