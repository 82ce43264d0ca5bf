import BoxLayout.Proofs.Layout.RunEnds

namespace BoxLayout
open Single

-- A run that does not wrap ends within its span where its children can give what is
-- missing in even parts, each its part, or where fillers make up for those that cannot.

variable {axis : Axis} {weight : ℚ} {run : Run} {b : Box} {span : Span} {alignment : Alignment} {last : Bool}

namespace Box

def flexible (axis : Axis) (b : Box) : Bool := !b.flags.fills axis && !b.flags.fixed.get axis

theorem flexible_iff : b.flexible axis = true ↔ ¬b.flags.fills axis = true ∧ ¬b.flags.fixed.get axis = true := by
  simp [flexible]

def Grown (axis : Axis) (b : Box) : Prop := IsSet (b.effectiveMinimum axis) → b.effectiveMinimum axis ≤ b.extent axis

end Box

namespace Run
variable {wrap : Bool} {shares : Shares}

theorem squeezed_eq (tallied : run.Tallied axis) : run.squeezed = (run.standing.filter fun b => b.flexible axis = true).length := by
  rw [tallied.squeezed,List.countP_eq_length_filter]
  simp [Box.flexible]

namespace Shares

theorem other_le (fills : ¬b.flags.fills axis = true) (lower : ¬0 < shares.eater)
    (sized : (b.extent axis).IsFinite ∧ 0 ≤ b.extent axis) (grown : b.Grown axis) :
    ((shares.ideal axis b).IsFinite ∧ (shares.first axis b).IsFinite) ∧
      (shares.ideal axis b).value ≤ (b.lengthOnRun axis).value ∧ (shares.first axis b).value ≤ (b.lengthOnRun axis).value := by
  have ideal := ideal_le fills lower sized.2
  have first : shares.first axis b ≤ b.extent axis := constrain_le_of_le ideal grown
  have positive : 0 ≤ shares.ideal axis b := nonneg_ideal fills sized.2
  have positive' : 0 ≤ shares.first axis b := nonneg_first fills sized.2
  have own : b.lengthOnRun axis = b.extent axis := if_neg fills
  rw [own]
  exact ⟨⟨isFinite_of_le positive ideal sized.1,isFinite_of_le positive' first sized.1⟩,
    (le_iff_value (ne_nan_of_le ideal).1 sized.1.ne_nan).mp ideal,(le_iff_value (ne_nan_of_le first).1 sized.1.ne_nan).mp first⟩

end Shares

def lengths (run : Run) (axis : Axis) : ℚ := (run.standing.map fun b => (b.lengthOnRun axis).value).sum

def slack (run : Run) (axis : Axis) (span : Span) (weight : ℚ) : ℚ :=
  (supply span weight + run.lengths axis) * (growth (2 * run.standing.length + 5) - 1)

namespace Fitting
variable (fitting : run.Fitting axis span weight)
include fitting

theorem le_slack : run.drift span weight + run.lengths axis * (1 / 2 ^ Number.Format.single.precision) ≤ run.slack axis span weight := by
  have lengths : 0 ≤ run.lengths axis := fitting.lengths_nonneg
  have grown := le_growth_sub (2 * run.standing.length + 5)
  have one : (1 : ℚ) * (1 / 2 ^ Number.Format.single.precision) ≤ (2 * run.standing.length + 5 : Nat) * (1 / 2 ^ Number.Format.single.precision) :=
    mul_le_mul_of_nonneg_right (by push_cast; linarith [(Nat.cast_nonneg run.standing.length : (0 : ℚ) ≤ _)]) (by positivity)
  have part := mul_le_mul_of_nonneg_left (by linarith : 1 / 2 ^ Number.Format.single.precision ≤ growth (2 * run.standing.length + 5) - 1) lengths
  unfold slack drift
  linarith

theorem drift_le_slack : run.drift span weight ≤ run.slack axis span weight := by
  have lengths : 0 ≤ run.lengths axis := fitting.lengths_nonneg
  exact (le_add_of_nonneg_right (mul_nonneg lengths (by positivity))).trans fitting.le_slack

theorem end_le (some : run.standing ≠ []) (shown : run.shares span.space alignment wrap last = shares) (lower : ¬0 < shares.eater)
    (funded : shares.Funded span weight run) (grown : ∀ b ∈ run.standing, ¬b.flags.fills axis = true → b.Grown axis) {target : Box → ℚ}
    (ideal : ∀ b ∈ run.standing, (shares.ideal axis b).value ≤ target b)
    (first : shares.takers axis run.standing = 0 → ∀ b ∈ run.standing, (shares.first axis b).value ≤ target b)
    (fits : run.allMargins axis + shares.lead.value + (run.standing.length - 1) * shares.gap.value + (run.standing.map target).sum ≤
      span.space.value + run.slack axis span weight) :
    ∀ p ∈ ((run.place axis span alignment wrap last).filter (·.flags.inFlow)).getLast?,
      p.outerEnd axis ≤ span.offset.value + span.space.value + rounding span weight run.standing.length := by
  have light := fitting.light
  rw [exactLength_eq] at light
  have moderate := fitting.moderate funded.filler (fun b member => value_nonneg (fitting.lengthOnRun member).2)
    (fun b member fills => Shares.other_le fills lower (fitting.sized b member fills) (grown b member fills))
  have supplied : shares.Supplied axis span weight run fun b => (b.lengthOnRun axis).value := ⟨moderate,light,funded⟩
  obtain ⟨finals,most,size⟩ := Shares.sum_final_le_target moderate.given fitting.low fitting.few (fitting.turnover_within supplied some) ideal first
  intro p found
  have ended := fitting.near_end supplied some size shown finals p found
  have close := le_abs_self (p.outerEnd axis - (span.offset.value + run.allMargins axis + shares.lead.value +
    (run.standing.length - 1) * shares.gap.value + (run.standing.map fun b => (shares.final axis (shares.bonus axis run.standing) b).value).sum))
  unfold slack lengths at fits
  linarith

theorem end_le_even (some : run.standing ≠ []) (shown : run.shares span.space alignment wrap last = shares) (even : shares.eater = 0)
    (funded : shares.Funded span weight run) (grown : ∀ b ∈ run.standing, ¬b.flags.fills axis = true → b.Grown axis)
    (fits : shares.lead.value + (run.standing.length - 1) * shares.gap.value + run.fillers * shares.filler.value ≤
      run.leftover axis span + run.slack axis span weight) :
    ∀ p ∈ ((run.place axis span alignment wrap last).filter (·.flags.inFlow)).getLast?,
      p.outerEnd axis ≤ span.offset.value + span.space.value + rounding span weight run.standing.length := by
  have lower : ¬0 < shares.eater := by
    rw [even]
    decide
  have first : ∀ b ∈ run.standing, (shares.first axis b).value ≤ (b.lengthOnRun axis).value + shares.filling axis b := by
    intro b member
    by_cases fills : b.flags.fills axis = true
    · have own := value_nonneg (fitting.lengthOnRun member).2
      exact (Shares.first_filler fills (fitting.low b member fills) funded.filler).2.1.trans (le_add_of_nonneg_left own)
    · have nothing : shares.filling axis b = 0 := if_neg fills
      rw [nothing,add_zero]
      exact (Shares.other_le fills lower (fitting.sized b member fills) (grown b member fills)).2.2
  refine fitting.end_le some shown lower funded grown (fun b member => (fitting.ideal_even even funded.filler b member).2.le) (fun _ => first) ?_
  have whole := exactLength_eq run axis
  rw [List.sum_map_add,Shares.sum_filling shares axis run fitting.tallied]
  unfold leftover at fits
  linarith

end Fitting

structure Shares.Around (shares : Shares) (axis : Axis) (span : Span) (weight : ℚ) (run : Run) : Prop where
  even : shares.filler = 0 ∧ shares.eater = 0
  funded : shares.Funded span weight run
  most : shares.lead.value + (run.standing.length - 1) * shares.gap.value ≤
    run.leftover axis span + run.drift span weight

namespace Fitting
variable (fitting : run.Fitting axis span weight)
include fitting

theorem near_half (leftover : 0 < span.space - run.used) :
    ((span.space - run.used) / 2).IsFinite ∧
      ((span.space - run.used) / 2).value ≤ run.leftover axis span + run.drift span weight ∧
      |((span.space - run.used) / 2).value| ≤ supply span weight * growth (2 * run.standing.length + 5) := by
  have least := fitting.leftover_ge leftover
  obtain ⟨finite,halved⟩ := fitting.near_part (by decide : 0 < 2) (by decide)
  change Close _ _ (((2 : Nat) : ℚ) * ((span.space - run.used) / 2).value) _ at halved
  have close : _ ≤ _ ∧ _ ≤ run.drift span weight := abs_le.mp halved.error
  have size := halved.abs_le
  have large := abs_nonneg ((span.space - run.used) / 2).value
  rw [abs_mul,Nat.abs_cast] at size
  push_cast at close size
  exact ⟨finite,by linarith,by linarith⟩

theorem near_gap (several : 1 < run.standing.length) : ((span.space - run.used) / ofNat (run.standing.length - 1)).IsFinite ∧
    Close (2 * run.standing.length + 5) (supply span weight)
      ((run.standing.length - 1) * ((span.space - run.used) / ofNat (run.standing.length - 1)).value) (run.leftover axis span) := by
  have few := fitting.few
  have cast : ((run.standing.length - 1 : Nat) : ℚ) = run.standing.length - 1 := by
    rw [Nat.cast_sub (by omega),Nat.cast_one]
  rw [← cast]
  exact fitting.near_part (by omega) (by omega)

theorem around (shown : run.shares span.space alignment wrap last = shares) (some : run.standing ≠ []) (leftover : 0 < span.space - run.used)
    (none : run.fillers = 0) : shares.Around axis span weight run := by
  have least := fitting.leftover_ge leftover
  have total : run.total = run.standing.length := fitting.tallied.counts.total
  have filled : ¬0 < run.fillers := by rw [none]; exact Nat.lt_irrefl 0
  have begun : ¬run.total = 0 := by rw [total]; exact fun empty => some (List.length_eq_zero_iff.mp empty)
  have nowhere : Shares.none.Around axis span weight run := by
    refine ⟨⟨rfl,rfl⟩,fitting.funded_none 0,?_⟩
    simp only [Shares.none,value_zero,mul_zero,add_zero]
    linarith
  have before : ∀ lead : Single, lead.IsFinite → lead.value ≤ run.leftover axis span + run.drift span weight →
      |lead.value| ≤ supply span weight * growth (2 * run.standing.length + 5) →
      { Shares.none with lead := lead }.Around axis span weight run := by
    intro lead finite most size
    refine ⟨⟨rfl,rfl⟩,⟨isFinite_zero,finite,isFinite_zero,?_⟩,?_⟩ <;>
      simpa only [Shares.spread,Shares.none,value_zero,abs_zero,mul_zero,add_zero,zero_add]
  unfold Run.shares at shown
  simp only [if_pos leftover,if_neg filled,if_neg begun] at shown
  rw [← shown]
  cases alignment with
  | start => exact nowhere
  | finish =>
      have extra : Near (2 * run.standing.length + 5) (supply span weight) _ _ :=
        fitting.near_extra.weaken (by omega) (le_add_of_nonneg_right (by norm_num))
      have close : _ ≤ _ ∧ _ ≤ run.drift span weight := abs_le.mp extra.close.error
      exact before _ extra.finite (by linarith) extra.close.abs_le
  | center =>
      obtain ⟨finite,most,size⟩ := fitting.near_half leftover
      exact before _ finite most size
  | justify =>
      dsimp only
      split
      · rename_i several
        rw [total] at several ⊢
        obtain ⟨finite,parts⟩ := fitting.near_gap several.1
        have several' : (1 : ℚ) ≤ run.standing.length := by exact_mod_cast several.1.le
        have close : _ ≤ _ ∧ _ ≤ run.drift span weight := abs_le.mp parts.error
        have size := parts.abs_le
        rw [abs_mul,abs_of_nonneg (sub_nonneg.mpr several')] at size
        refine ⟨⟨rfl,rfl⟩,⟨isFinite_zero,isFinite_zero,finite,?_⟩,?_⟩ <;>
          simp only [Shares.spread,Shares.none,value_zero,abs_zero,mul_zero,zero_add] <;> linarith
      · exact nowhere

theorem near_eater (squeezes : 0 < run.squeezed) : ((span.space - run.used) / ofNat run.squeezed).IsFinite ∧
    |((span.space - run.used) / ofNat run.squeezed).value| ≤ 2 ^ 126 ∧
    run.squeezed * ((span.space - run.used) / ofNat run.squeezed).value ≤
      run.leftover axis span + run.drift span weight := by
  have few : run.squeezed ≤ run.standing.length := by
    rw [fitting.tallied.squeezed]
    exact List.countP_le_length
  obtain ⟨finite,parts⟩ := fitting.near_part squeezes (few.trans fitting.few)
  generalize (span.space - run.used) / ofNat run.squeezed = eater at *
  have one : |eater.value| ≤ run.squeezed * |eater.value| := le_mul_of_one_le_left (abs_nonneg _) (by exact_mod_cast squeezes)
  have size := parts.abs_le
  rw [abs_mul,Nat.abs_cast] at size
  obtain ⟨nonneg,large⟩ := fitting.supply_le
  have close : _ ≤ run.drift span weight := (abs_le.mp parts.error).2
  exact ⟨finite,(one.trans size).trans (fitting.le_within nonneg large (by omega)),by linarith⟩

theorem extent_le (member : b ∈ run.standing) (fills : ¬b.flags.fills axis = true) : (b.extent axis).value ≤ 2 ^ 126 := by
  have one := List.single_le_sum (List.forall_mem_map.mpr fun c inside => value_nonneg (fitting.lengthOnRun inside).2) _
    (List.mem_map_of_mem member)
  have own : b.lengthOnRun axis = b.extent axis := if_neg fills
  have light := fitting.light
  have margins := fitting.allMargins_nonneg
  have room := fitting.space_nonneg
  have far := abs_nonneg span.offset.value
  have most := fitting.le_within fitting.weight_nonneg (by unfold reach; linarith [fitting.weight_nonneg]) (Nat.zero_le _)
  rw [exactLength_eq] at light
  rw [own] at one
  rw [growth_zero,mul_one] at most
  linarith

theorem ideal_flexible_le {eater : Single} (member : b ∈ run.standing) (flexible : b.flexible axis = true) (finite : eater.IsFinite)
    (lower : eater.value ≤ 0) (within : |eater.value| ≤ 2 ^ 126) : ({ Shares.none with eater := eater }.ideal axis b).value ≤
      max ((b.lengthOnRun axis).value + eater.value + (b.lengthOnRun axis).value * (1 / 2 ^ Number.Format.single.precision)) 0 := by
  obtain ⟨fills,fixed⟩ := Box.flexible_iff.mp flexible
  have sized := fitting.sized b member fills
  have own : b.lengthOnRun axis = b.extent axis := if_neg fills
  have nonneg := value_nonneg sized.2
  have small := fitting.extent_le member fills
  obtain ⟨_,error⟩ := add_error sized.1 finite (by
    rw [abs_le] at within ⊢
    constructor <;> linarith)
  rw [div_eq_mul_one_div] at error
  have ideal : { Shares.none with eater := eater }.ideal axis b = (b.extent axis + eater).positivePart := by
    unfold Shares.ideal
    rw [if_neg fills,if_neg fixed]
  have close := (abs_le.mp error).2
  have unit : (0 : ℚ) ≤ 1 / 2 ^ Number.Format.single.precision := by positivity
  have least : (1 : ℚ) / 2 ^ Number.Format.single.precision ≤ 1 := by norm_num [Number.Format.single]
  rw [ideal,own]
  unfold positivePart
  split
  · rcases le_total 0 ((b.extent axis).value + eater.value) with left | none
    · rw [abs_of_nonneg left] at close
      have part := mul_le_mul_of_nonneg_right (by linarith : (b.extent axis).value + eater.value ≤ (b.extent axis).value) unit
      exact le_max_of_le_left (by linarith)
    · rw [abs_of_nonpos none] at close
      have part := mul_le_mul_of_nonneg_left least (neg_nonneg.mpr none)
      exact le_max_of_le_right (by linarith)
  · rw [value_zero]
    exact le_max_right _ _

end Fitting

-- Each flexible child has its part of what is missing, above its minimum where no filler
-- makes up for it.
structure Spare (axis : Axis) (span : Span) (run : Run) (b : Box) : Prop where
  size : 0 ≤ run.squeezed * (b.lengthOnRun axis).value + run.leftover axis span
  minimum : run.fillers = 0 → IsSet (b.effectiveMinimum axis) →
    0 ≤ run.squeezed * ((b.lengthOnRun axis).value - (b.effectiveMinimum axis).value) + run.leftover axis span

-- What a flexible child is to get for its part of what is missing, a little more for the
-- roundings, and what each child is left with then.
def evenPart (run : Run) (axis : Axis) (span : Span) (weight : ℚ) : ℚ :=
  (run.leftover axis span + run.drift span weight) / run.squeezed

def shrunkTo (run : Run) (axis : Axis) (span : Span) (weight : ℚ) (b : Box) : ℚ :=
  (b.lengthOnRun axis).value * (1 + 1 / 2 ^ Number.Format.single.precision) + if b.flexible axis = true then run.evenPart axis span weight else 0

theorem squeezed_mul_evenPart (squeezes : 0 < run.squeezed) : run.squeezed * run.evenPart axis span weight =
    run.leftover axis span + run.drift span weight := by
  have count : (0 : ℚ) < run.squeezed := by exact_mod_cast squeezes
  exact mul_div_cancel₀ _ count.ne'

theorem shrunkTo_flexible (flexible : b.flexible axis = true) : run.shrunkTo axis span weight b =
    (b.lengthOnRun axis).value * (1 + 1 / 2 ^ Number.Format.single.precision) + run.evenPart axis span weight := congrArg _ (if_pos flexible)

theorem le_shrunkTo (nonneg : 0 ≤ b.lengthOnRun axis) (other : ¬b.flexible axis = true) :
    (b.lengthOnRun axis).value ≤ run.shrunkTo axis span weight b := by
  unfold shrunkTo
  rw [if_neg other,add_zero]
  exact le_mul_of_one_le_right (value_nonneg nonneg) (le_add_of_nonneg_right (by positivity))

namespace Fitting
variable (fitting : run.Fitting axis span weight)
include fitting

theorem fillers_of_takers (none : shares.filler = 0) (takers : shares.takers axis run.standing = 0) : run.fillers = 0 := by
  by_contra some
  rw [fitting.tallied.fillers] at some
  obtain ⟨b,member,fills⟩ := List.countP_pos_iff.mp (Nat.pos_of_ne_zero some)
  have ideal : shares.ideal axis b = 0 := (if_pos fills).trans none
  have opened : shares.Open axis b := by
    refine ⟨fills,?_⟩
    unfold Shares.first Box.bounded constrain
    dsimp only
    rw [ideal,if_neg (fitting.low b member fills)]
    split
    · rename_i set
      rw [min_eq_left set]
      decide
    · decide
  have taken : 0 < shares.takers axis run.standing :=
    List.length_pos_iff_exists_mem.mpr ⟨b,List.mem_filter.mpr ⟨member,decide_eq_true opened⟩⟩
  exact taken.ne' takers

section Given
variable (squeezes : 0 < run.squeezed)
include squeezes

theorem sum_shrunkTo : run.allMargins axis + (run.standing.map (run.shrunkTo axis span weight)).sum ≤
    span.space.value + run.slack axis span weight := by
  have shrunk : (run.standing.map (run.shrunkTo axis span weight)).sum = _ := List.sum_map_add
  have counted := exactLength_eq run axis
  have added := fitting.le_slack
  rw [shrunk,List.sum_map_mul_right,sum_map_ite,← squeezed_eq fitting.tallied,squeezed_mul_evenPart squeezes]
  unfold lengths at added
  unfold leftover
  linarith

theorem le_add_evenPart {least size : ℚ} (enough : 0 ≤ run.squeezed * (size - least) + run.leftover axis span) (nonneg : 0 ≤ size) :
    least ≤ size * (1 + 1 / 2 ^ Number.Format.single.precision) + run.evenPart axis span weight := by
  have count : (0 : ℚ) < run.squeezed := by exact_mod_cast squeezes
  have added := fitting.drift_nonneg
  have more := le_mul_of_one_le_right nonneg (le_add_of_nonneg_right (by positivity) : (1 : ℚ) ≤ 1 + 1 / 2 ^ Number.Format.single.precision)
  have scaled : 0 ≤ run.squeezed * (size + run.evenPart axis span weight - least) := by
    rw [mul_sub,mul_add,squeezed_mul_evenPart squeezes]
    linarith
  linarith [nonneg_of_mul_nonneg_right scaled count]

variable {eater : Single} (finite : eater.IsFinite) (small : |eater.value| ≤ 2 ^ 126)
  (part : run.squeezed * eater.value ≤ run.leftover axis span + run.drift span weight)
  (lower : ¬0 < { Shares.none with eater := eater }.eater)
  (grown : ∀ b ∈ run.standing, ¬b.flags.fills axis = true → b.Grown axis)
  (spare : ∀ b ∈ run.standing, b.flexible axis = true → run.Spare axis span b)
include finite small part lower grown spare

theorem ideal_le_shrunkTo : ∀ b ∈ run.standing, ({ Shares.none with eater := eater }.ideal axis b).value ≤ run.shrunkTo axis span weight b := by
  intro b member
  have own := (fitting.lengthOnRun member).2
  by_cases flexible : b.flexible axis = true
  · have nonpos : eater.value ≤ 0 := not_lt.mp fun positive => lower ((lt_iff_value isFinite_zero.ne_nan finite.ne_nan).mpr (by rwa [value_zero]))
    have most := fitting.ideal_flexible_le member flexible finite nonpos small
    have enough : 0 ≤ (b.lengthOnRun axis).value * (1 + 1 / 2 ^ Number.Format.single.precision) + run.evenPart axis span weight :=
      fitting.le_add_evenPart squeezes (by rw [sub_zero]; exact (spare b member flexible).size) (value_nonneg own)
    have count : (0 : ℚ) < run.squeezed := by exact_mod_cast squeezes
    have given : eater.value ≤ run.evenPart axis span weight := (le_div_iff₀ count).mpr (by linarith)
    rw [shrunkTo_flexible flexible]
    exact most.trans (max_le (by linarith) enough)
  · refine le_trans ?_ (le_shrunkTo own flexible)
    by_cases fills : b.flags.fills axis = true
    · rw [(Shares.ideal_filler fills isFinite_zero).2,Shares.filling,if_pos fills]
      exact (congrArg _ value_zero).le.trans (add_zero _).le
    · exact (Shares.other_le fills lower (fitting.sized b member fills) (grown b member fills)).2.1

theorem first_le_shrunkTo (takers : { Shares.none with eater := eater }.takers axis run.standing = 0) :
    ∀ b ∈ run.standing, ({ Shares.none with eater := eater }.first axis b).value ≤ run.shrunkTo axis span weight b := by
  intro b member
  have alone := fitting.fillers_of_takers rfl takers
  have own := (fitting.lengthOnRun member).2
  have fills : ¬b.flags.fills axis = true := fun fills => (fillers_pos fitting.tallied member fills).ne' alone
  obtain ⟨⟨number,_⟩,_,less⟩ := Shares.other_le fills lower (fitting.sized b member fills) (grown b member fills)
  by_cases flexible : b.flexible axis = true
  · have ideal := fitting.ideal_le_shrunkTo squeezes finite small part lower grown spare b member
    refine constrain_value_le number.ne_nan ideal (fun set => ?_) (b.maximum axis)
    rw [shrunkTo_flexible flexible]
    exact fitting.le_add_evenPart squeezes ((spare b member flexible).minimum alone set) (value_nonneg own)
  · exact less.trans (le_shrunkTo own flexible)

end Given

variable (some : run.standing ≠ []) (grown : ∀ b ∈ run.standing, ¬b.flags.fills axis = true → b.Grown axis)
include some grown

theorem end_le_given (full : ¬0 < span.space - run.used) (squeezes : 0 < run.squeezed)
    (spare : ∀ b ∈ run.standing, b.flexible axis = true → run.Spare axis span b) :
    ∀ p ∈ ((run.place axis span alignment false last).filter (·.flags.inFlow)).getLast?,
      p.outerEnd axis ≤ span.offset.value + span.space.value + rounding span weight run.standing.length := by
  have shown : run.shares span.space alignment false last = _ := shares_squeezing full squeezes
  have lower : ¬0 < (run.shares span.space alignment false last).eater := eater_not_pos
  obtain ⟨finite,small,part⟩ := fitting.near_eater squeezes
  rw [shown] at lower
  generalize (span.space - run.used) / ofNat run.squeezed = eater at *
  have total := fitting.sum_shrunkTo squeezes
  refine fitting.end_le some shown lower (fitting.funded_none eater) grown (fitting.ideal_le_shrunkTo squeezes finite small part lower grown spare)
    (fitting.first_le_shrunkTo squeezes finite small part lower grown spare) ?_
  simp only [Shares.none,value_zero,mul_zero,add_zero]
  exact total

theorem end_le_filled (leftover : 0 < span.space - run.used) (fills : 0 < run.fillers) :
    ∀ p ∈ ((run.place axis span alignment wrap last).filter (·.flags.inFlow)).getLast?,
      p.outerEnd axis ≤ span.offset.value + span.space.value + rounding span weight run.standing.length := by
  obtain ⟨shares,shown⟩ : ∃ shares, run.shares span.space alignment wrap last = shares := ⟨_,rfl⟩
  obtain ⟨⟨lead,gap,even⟩,funded,shared⟩ := fitting.filling shown leftover fills
  have added := fitting.drift_le_slack
  have close : _ ≤ run.drift span weight := (abs_le.mp shared.error).2
  refine fitting.end_le_even some shown even funded grown ?_
  rw [lead,gap,value_zero,mul_zero]
  linarith

theorem end_le_spread (leftover : 0 < span.space - run.used) (none : run.fillers = 0) :
    ∀ p ∈ ((run.place axis span alignment wrap last).filter (·.flags.inFlow)).getLast?,
      p.outerEnd axis ≤ span.offset.value + span.space.value + rounding span weight run.standing.length := by
  obtain ⟨shares,shown⟩ : ∃ shares, run.shares span.space alignment wrap last = shares := ⟨_,rfl⟩
  obtain ⟨⟨filler,even⟩,funded,most⟩ := fitting.around shown some leftover none
  have added := fitting.drift_le_slack
  refine fitting.end_le_even some shown even funded grown ?_
  rw [filler,value_zero,mul_zero]
  linarith

theorem end_le_rigid (full : ¬0 < span.space - run.used) (rigid : run.squeezed = 0) (fits : exactLength axis run.standing ≤ span.space.value) :
    ∀ p ∈ ((run.place axis span alignment wrap last).filter (·.flags.inFlow)).getLast?,
      p.outerEnd axis ≤ span.offset.value + span.space.value + rounding span weight run.standing.length := by
  have shown : run.shares span.space alignment wrap last = _ := shares_rigid full rigid
  have added := fitting.drift_nonneg.trans fitting.drift_le_slack
  refine fitting.end_le_even some shown rfl (fitting.funded_none 0) grown ?_
  simp only [Shares.none,value_zero,mul_zero,add_zero]
  unfold Run.leftover
  linarith

theorem squeezed (fits : run.squeezed = 0 → exactLength axis run.standing ≤ span.space.value)
    (spare : ∀ b ∈ run.standing, b.flexible axis = true → run.Spare axis span b) :
    ∀ p ∈ ((run.place axis span alignment false last).filter (·.flags.inFlow)).getLast?,
      p.outerEnd axis ≤ span.offset.value + span.space.value + rounding span weight run.standing.length := by
  by_cases leftover : 0 < span.space - run.used
  · by_cases fills : 0 < run.fillers
    · exact fitting.end_le_filled some grown leftover fills
    · exact fitting.end_le_spread some grown leftover (Nat.eq_zero_of_not_pos fills)
  · by_cases squeezes : 0 < run.squeezed
    · exact fitting.end_le_given some grown leftover squeezes spare
    · exact fitting.end_le_rigid some grown leftover (Nat.eq_zero_of_not_pos squeezes) (fits (Nat.eq_zero_of_not_pos squeezes))

end Fitting
end Run
end BoxLayout
