import BoxLayout.Proofs.Layout.RunEnds

namespace BoxLayout.Run
open Single

-- Fillers use up what is left over. What some of them may not take is handed to all that
-- their bounds left alone, once and evenly, so it is used up if they all can take it.

variable {axis : Axis} {weight : ℚ} {run : Run} {b o : Box} {span : Span} {alignment : Alignment} {wrap last : Bool} {shares : Shares}

namespace Shares

def kept (shares : Shares) (axis : Axis) (b : Box) : ℚ := if b.flags.fills axis = true then 0 else (shares.first axis b).value

-- The maximum of a filler is below its part, or not below what a filler without one gets.
def Spares (shares : Shares) (axis : Axis) (bonus : Single) (o b : Box) : Prop :=
  IsSet (b.maximum axis) → b.maximum axis < shares.filler ∨ shares.final axis bonus o ≤ b.maximum axis

theorem le_first_other (fills : ¬b.flags.fills axis = true) (even : shares.eater = 0) (weighed : b.Weighed axis) :
    (b.extent axis).value ≤ (shares.first axis b).value := by
  have same : (shares.first axis b).Same (b.bounded axis (b.extent axis)) := constrain_same (ideal_same fills even weighed.nonneg)
  rw [same.value]
  exact (le_iff_value (ne_nan_of_le weighed.within).1 (ne_nan_of_le weighed.within).2).mp weighed.within

theorem nonneg_kept (nonneg : ¬b.flags.fills axis = true → 0 ≤ b.extent axis) : 0 ≤ shares.kept axis b := by
  unfold kept
  split
  · exact le_rfl
  · rename_i fills
    exact value_nonneg (nonneg_first fills (nonneg fills))

theorem other_kept (fills : ¬b.flags.fills axis = true) (even : shares.eater = 0) (weighed : b.Weighed axis) (sized : (b.extent axis).IsFinite)
    (finite : (shares.first axis b).IsFinite) : ((shares.ideal axis b).IsFinite ∧ (shares.first axis b).IsFinite) ∧
      (shares.ideal axis b).value ≤ shares.kept axis b ∧ (shares.first axis b).value ≤ shares.kept axis b := by
  have same := ideal_same fills even weighed.nonneg
  have own : shares.kept axis b = (shares.first axis b).value := if_neg fills
  rw [own,same.value]
  exact ⟨⟨same.isFinite sized,finite⟩,le_first_other fills even weighed,le_rfl⟩

section Unlimited
variable {bonus : Single} (fills : b.flags.fills axis = true) (low : ¬IsSet (b.effectiveMinimum axis))
include fills low

theorem first_unlimited (unlimited : ¬IsSet (b.maximum axis)) : shares.first axis b = shares.filler := by
  have ideal : shares.ideal axis b = shares.filler := if_pos fills
  rw [first,ideal]
  exact constrain_unset low unlimited

theorem open_unlimited (finite : shares.filler.IsFinite) (unlimited : ¬IsSet (b.maximum axis)) : shares.Open axis b := by
  have ideal : shares.ideal axis b = shares.filler := if_pos fills
  refine ⟨fills,?_⟩
  rw [first_unlimited fills low unlimited,ideal]
  exact same_self finite.ne_nan

theorem final_unlimited (finite : shares.filler.IsFinite) (unlimited : ¬IsSet (b.maximum axis)) (more : ¬bonus.Same 0) :
    shares.final axis bonus b = shares.filler + bonus := by
  unfold final
  rw [if_pos ⟨open_unlimited fills low finite unlimited,more⟩,first_unlimited fills low unlimited]
  exact constrain_unset low unlimited

theorem closed_of_less (set : IsSet (b.maximum axis)) (less : b.maximum axis < shares.filler) : ¬shares.Open axis b := by
  rintro ⟨_,same⟩
  have ideal : shares.ideal axis b = shares.filler := if_pos fills
  have first : shares.first axis b = b.maximum axis := by
    unfold Shares.first Box.bounded constrain
    dsimp only
    rw [ideal,if_pos set,if_neg low,min_eq_right less]
  rw [first,ideal] at same
  exact not_lt_of_le same.symm.le less

end Unlimited

theorem Spares.high {bonus : Single} (spares : shares.Spares axis bonus o b) (finite : shares.filler.IsFinite) (given : bonus.IsFinite)
    (fills : o.flags.fills axis = true) (low : ¬IsSet (o.effectiveMinimum axis)) (unlimited : ¬IsSet (o.maximum axis))
    (low' : ¬IsSet (b.effectiveMinimum axis)) (opened : shares.Open axis b) (set : IsSet (b.maximum axis)) (more : ¬bonus.Same 0) :
    shares.first axis b + bonus ≤ b.maximum axis := by
  rcases spares set with less | within
  · exact absurd opened (closed_of_less opened.1 low' set less)
  · rw [final_unlimited fills low finite unlimited more] at within
    have ideal : shares.ideal axis b = shares.filler := if_pos opened.1
    have same : (shares.first axis b).Same shares.filler := ideal ▸ opened.2
    have first := same.isFinite finite
    exact le_trans (add_le_add_right same.le (first.add_ne_nan given) (finite.add_ne_nan given)) within

end Shares

namespace Fitting
variable (fitting : run.Fitting axis span weight) (shown : run.shares span.space alignment wrap last = shares)
  (leftover : 0 < span.space - run.used) (stands : o ∈ run.standing) (fills : o.flags.fills axis = true)
  (unlimited : ¬IsSet (o.maximum axis)) (weighed : ∀ b ∈ run.standing, b.Weighed axis)
  (others : ∀ b ∈ run.standing, ¬b.flags.fills axis = true → (shares.first axis b).IsFinite)
  (light : run.allMargins axis + (run.standing.map (shares.kept axis)).sum ≤ weight)
include fitting shown leftover stands fills weighed others light

omit unlimited in
theorem supplied_filled : shares.Supplied axis span weight run (shares.kept axis) := by
  obtain ⟨⟨_,_,even⟩,funded,_⟩ := fitting.filling shown leftover (fillers_pos fitting.tallied stands fills)
  exact ⟨fitting.moderate funded.filler (fun b member => Shares.nonneg_kept (fun fills => (fitting.sized b member fills).2))
    (fun b member fills => Shares.other_kept fills even (weighed b member) (fitting.sized b member fills).1 (others b member fills)),light,funded⟩

variable (spares : ∀ b ∈ run.standing, b.flags.fills axis = true → shares.Spares axis (shares.bonus axis run.standing) o b)
include unlimited spares

-- The children come to all that is there, but for what the shares are off.
theorem sum_filled : (∀ b ∈ run.standing, (shares.final axis (shares.bonus axis run.standing) b).IsFinite) ∧
    (run.standing.map fun b => |(shares.final axis (shares.bonus axis run.standing) b).value|).sum ≤
      (shares.turnover axis run.standing + 1 / 8) * growth (run.standing.length + 5) ∧
    |run.allMargins axis + (run.standing.map fun b => (shares.final axis (shares.bonus axis run.standing) b).value).sum - span.space.value| ≤
      (shares.turnover axis run.standing + 1 / 8) * (growth (run.standing.length + 5) - 1) + run.drift span weight := by
  have supplied := fitting.supplied_filled shown leftover stands fills weighed others light
  obtain ⟨⟨_,_,even⟩,⟨finite,_,_,_⟩,shared⟩ := fitting.filling shown leftover (fillers_pos fitting.tallied stands fills)
  have takers : 0 < shares.takers axis run.standing := by
    refine List.length_pos_iff_exists_mem.mpr ⟨o,List.mem_filter.mpr ⟨stands,?_⟩⟩
    exact decide_eq_true (Shares.open_unlimited fills (fitting.low o stands fills) finite unlimited)
  have handed : shares.Handed axis run.standing :=
    ⟨supplied.moderate.given,fitting.low,fitting.few,takers,fitting.turnover_within supplied (List.ne_nil_of_mem stands)⟩
  obtain ⟨finals,most,size⟩ := Shares.sum_final_le handed
  have least := Shares.le_sum_final handed fun b member opened set more =>
    (spares b member opened.1).high finite handed.paid.finite fills (fitting.low o stands fills) unlimited
      (fitting.low b member opened.1) opened set more
  have total : (run.standing.map fun b => (shares.ideal axis b).value).sum =
      (run.standing.map fun b => (b.lengthOnRun axis).value).sum + run.fillers * shares.filler.value := by
    rw [← Shares.sum_filling shares axis run fitting.tallied,← List.sum_map_add]
    exact congrArg List.sum (List.map_congr_left fun b member => (fitting.ideal_even even finite b member).2)
  have whole := exactLength_eq run axis
  have close := abs_le.mp shared.error
  refine ⟨finals,size,?_⟩
  rw [total] at most least
  unfold Run.leftover at close
  unfold drift
  rw [abs_le]
  constructor <;> linarith

-- So the last child of such a run ends where the span does, whatever maxima the fillers have.
theorem filled : ∀ p ∈ ((run.place axis span alignment wrap last).filter (·.flags.inFlow)).getLast?,
    |p.outerEnd axis - (span.offset.value + span.space.value)| ≤ rounding span weight run.standing.length := by
  have supplied := fitting.supplied_filled shown leftover stands fills weighed others light
  obtain ⟨⟨lead,gap,_⟩,_⟩ := fitting.filling shown leftover (fillers_pos fitting.tallied stands fills)
  obtain ⟨finals,size,whole⟩ := fitting.sum_filled shown leftover stands fills unlimited weighed others light spares
  intro p found
  have ended := fitting.near_end supplied (List.ne_nil_of_mem stands) size shown finals p found
  rw [lead,gap,value_zero,mul_zero,add_zero,add_zero] at ended
  have keeps := mul_nonneg supplied.moderate.sum_nonneg (sub_nonneg.mpr (one_le_growth (2 * run.standing.length + 5)))
  have apart := abs_sub_le (p.outerEnd axis) (span.offset.value + run.allMargins axis +
    (run.standing.map fun b => (shares.final axis (shares.bonus axis run.standing) b).value).sum) (span.offset.value + span.space.value)
  rw [add_assoc span.offset.value,add_sub_add_left_eq_sub,← add_assoc span.offset.value] at apart
  unfold drift at whole
  linarith

end Fitting
end BoxLayout.Run
