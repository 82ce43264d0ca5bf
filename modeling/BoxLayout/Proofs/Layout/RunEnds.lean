import BoxLayout.Proofs.Layout.RunSums

namespace BoxLayout
open Number Single

-- Where a run ends. Fillers without a minimum take what is left over, and flexible children
-- give what is missing, as far as the bounds allow; what they do not is shared out once more.

variable {axis : Axis} {weight : ℚ}

namespace Run
variable {run : Run} {b : Box}

structure Tallied (axis : Axis) (run : Run) : Prop where
  counts : run.Counts axis run.standing
  fillers : run.fillers = run.standing.countP (·.flags.fills axis)
  squeezed : run.squeezed = run.standing.countP fun b => !b.flags.fills axis && !b.flags.fixed.get axis

theorem tallied_empty (axis : Axis) : empty.Tallied axis := ⟨counts_empty axis,rfl,rfl⟩

theorem Tallied.pass (tallied : run.Tallied axis) (flows : b.flags.inFlow = false) : (run.pass b).Tallied axis := by
  obtain ⟨counts,fillers,squeezed⟩ := tallied
  refine ⟨?_,?_,?_⟩
  · rw [standing_pass flows]
    exact counts.pass b
  · rw [standing_pass flows]
    exact fillers
  · rw [standing_pass flows]
    exact squeezed

theorem Tallied.accept (tallied : run.Tallied axis) (flows : b.flags.inFlow = true) : (run.accept axis b).Tallied axis := by
  obtain ⟨counts,fillers,squeezed⟩ := tallied
  refine ⟨?_,?_,?_⟩
  · rw [standing_accept flows]
    exact counts.accept b
  · rw [standing_accept flows,List.countP_append,← fillers]
    simp only [Run.accept,List.countP_singleton]
    split <;> rfl
  · rw [standing_accept flows,List.countP_append,← squeezed]
    simp only [Run.accept,List.countP_singleton]
    split <;> rfl

theorem tallied_build {space : Single} {wrap : Bool} {xs : List Box} (tallied : run.Tallied axis) :
    ∀ part ∈ build axis space wrap run xs, part.Tallied axis := by
  induction xs generalizing run with
  | nil =>
      intro part member
      rw [List.mem_singleton.mp member]
      exact tallied
  | cons b rest ih =>
      simp only [build]
      split
      · rename_i passes
        exact ih (tallied.pass passes)
      · rename_i flows
        have flows' : b.flags.inFlow = true := by simpa using flows
        split
        · exact List.forall_mem_cons.mpr ⟨tallied,ih ((tallied_empty axis).accept flows')⟩
        · exact ih (tallied.accept flows')

theorem flows_standing (run : Run) : ∀ b ∈ run.standing, b.flags.inFlow = true := fun b member => by
  simpa using (List.mem_filter.mp member).2

theorem filter_placeFrom (shares : Shares) (axis : Axis) (bonus cursor gap : Single) (xs : List Box) :
    (shares.placeFrom axis bonus cursor gap xs).filter (·.flags.inFlow) =
      shares.placeFrom axis bonus cursor gap (xs.filter (·.flags.inFlow)) := by
  induction xs generalizing cursor gap with
  | nil => rfl
  | cons b rest ih =>
      by_cases flows : b.flags.inFlow = true
      · have kept : ∀ start size, ((b.withStart axis start).withExtent axis size).flags.inFlow = true := fun _ _ => flows
        simp only [Shares.placeFrom_cons flows,List.filter_cons,kept,flows,if_true,ih]
      · have passed := Bool.eq_false_iff.mpr flows
        have skipped : ∀ others, shares.placeFrom axis bonus cursor gap (b :: others) =
            b :: shares.placeFrom axis bonus cursor gap others := fun _ => if_pos passed
        simp only [skipped,List.filter_cons,passed,Bool.false_eq_true,if_false,ih]

theorem standing_place (run : Run) (axis : Axis) (span : Span) (alignment : Alignment) (wrap last : Bool) :
    (run.place axis span alignment wrap last).filter (·.flags.inFlow) =
      (run.shares span.space alignment wrap last).placeFrom axis ((run.shares span.space alignment wrap last).bonus axis run.standing)
        span.offset (run.shares span.space alignment wrap last).lead run.standing := filter_placeFrom ..

-- The largest amount on the way along a run whose children are so long together, by how much
-- the roundings for that many children may move it, and that it stays a number.
def reach (span : Span) (weight : ℚ) : ℚ := |span.offset.value| + span.space.value + 3 * weight + 1

def rounding (span : Span) (weight : ℚ) (count : Nat) : ℚ := reach span weight * (growth (5 * (count + 2)) - 1)

def InRange (span : Span) (weight : ℚ) (count : Nat) : Prop := reach span weight * growth (5 * (count + 2)) ≤ 2 ^ 126

def Short (span : Span) (weight : ℚ) (count : Nat) : Prop := (count + 2) * reach span weight ≤ 2 ^ 20

section Reach
variable {span : Span} {count : Nat} (space : 0 ≤ span.space) (nonneg : 0 ≤ weight)
include space nonneg

theorem one_le_reach : 1 ≤ reach span weight := by
  have far := abs_nonneg span.offset.value
  have room := value_nonneg space
  unfold reach
  linarith

theorem Short.rounding_le (short : Short span weight count) : rounding span weight count ≤ 1 / 2 := by
  unfold Short at short
  have one := one_le_reach space nonneg
  have many : ((count + 2 : Nat) : ℚ) ≤ 2 ^ 20 := by
    push_cast
    exact (le_mul_of_one_le_right (by positivity) one).trans short
  have many' : count + 2 ≤ 2 ^ 20 := by exact_mod_cast many
  have precision : Number.Format.single.precision = 24 := rfl
  have grown := growth_le (by rw [precision]; omega : 5 * (count + 2) ≤ 2 ^ Number.Format.single.precision)
  have part : ((5 * (count + 2) : Nat) : ℚ) / 2 ^ Number.Format.single.precision = (count + 2) * (5 / 2 ^ 24) := by
    rw [precision]
    push_cast
    ring
  have less : ((count : ℚ) + 2) * (5 / 2 ^ 24) ≤ 5 / 16 := by
    push_cast at many
    linarith
  rw [part] at grown
  calc rounding span weight count ≤ reach span weight * ((count + 2) * (5 / 2 ^ 24) * (1 + (count + 2) * (5 / 2 ^ 24))) :=
        mul_le_mul_of_nonneg_left (by linarith) (by linarith)
    _ = (count + 2) * reach span weight * (5 / 2 ^ 24) * (1 + (count + 2) * (5 / 2 ^ 24)) := by ring
    _ ≤ 2 ^ 20 * (5 / 2 ^ 24) * (1 + 5 / 16) := by gcongr
    _ ≤ 1 / 2 := by norm_num

theorem InRange.isFinite (within : InRange span weight count) {x : Single} (positive : 0 ≤ x) (less : x.value ≤ span.space.value + weight) :
    x.IsFinite := by
  have far := abs_nonneg span.offset.value
  have large := le_mul_of_one_le_right (zero_le_one.trans (one_le_reach space nonneg)) (one_le_growth (5 * (count + 2)))
  unfold InRange at within
  refine isFinite_of_value (ne_nan_of_le positive).2 ?_
  rw [abs_of_nonneg (value_nonneg positive)]
  have most : x.value ≤ 2 ^ 126 := by
    unfold reach at *
    linarith
  exact most.trans_lt (by norm_num [Number.Format.single])

end Reach

structure Fitting (axis : Axis) (span : Span) (weight : ℚ) (run : Run) : Prop where
  tallied : run.Tallied axis
  spaced : ∀ b ∈ run.standing, b.Spaced axis
  sized : ∀ b ∈ run.standing, ¬b.flags.fills axis = true → (b.extent axis).IsFinite ∧ 0 ≤ b.extent axis
  low : ∀ b ∈ run.standing, b.flags.fills axis = true → ¬IsSet (b.effectiveMinimum axis)
  offset : span.offset.IsFinite
  space : span.space.IsFinite ∧ 0 ≤ span.space
  light : exactLength axis run.standing ≤ weight
  within : InRange span weight run.standing.length

def leftover (run : Run) (axis : Axis) (span : Span) : ℚ := span.space.value - exactLength axis run.standing

def allMargins (run : Run) (axis : Axis) : ℚ := (run.standing.map (·.marginsOn axis)).sum

theorem exactLength_eq (run : Run) (axis : Axis) :
    exactLength axis run.standing = run.allMargins axis + (run.standing.map fun b => (b.lengthOnRun axis).value).sum := List.sum_map_add

theorem shares_filling {space : Single} {alignment : Alignment} {wrap last : Bool} (leftover : 0 < space - run.used) (fills : 0 < run.fillers) :
    run.shares space alignment wrap last = { Shares.none with filler := (space - run.used) / .ofNat run.fillers } :=
  (if_pos leftover).trans (if_pos fills)

theorem shares_squeezing {space : Single} {alignment : Alignment} {last : Bool} (full : ¬0 < space - run.used) (squeezes : 0 < run.squeezed) :
    run.shares space alignment false last = { Shares.none with eater := (space - run.used) / .ofNat run.squeezed } :=
  (if_neg full).trans (if_pos ⟨rfl,squeezes⟩)

theorem shares_rigid {space : Single} {alignment : Alignment} {wrap last : Bool} (full : ¬0 < space - run.used) (rigid : run.squeezed = 0) :
    run.shares space alignment wrap last = .none := (if_neg full).trans (if_neg fun squeezes => squeezes.2.ne' rigid)

theorem fillers_eq (tallied : run.Tallied axis) : run.fillers = (run.standing.filter fun b => b.flags.fills axis = true).length := by
  rw [tallied.fillers,List.countP_eq_length_filter]
  simp

theorem fillers_pos (tallied : run.Tallied axis) (member : b ∈ run.standing) (fills : b.flags.fills axis = true) : 0 < run.fillers := by
  rw [tallied.fillers]
  exact List.countP_pos_iff.mpr ⟨b,member,fills⟩

-- What is shared out among the children of a run is at most this, and off by no more than
-- that.
def supply (span : Span) (weight : ℚ) : ℚ := span.space.value + weight + 1 / 8

def drift (run : Run) (span : Span) (weight : ℚ) : ℚ := supply span weight * (growth (2 * run.standing.length + 5) - 1)

namespace Fitting
variable {span : Span} (fitting : run.Fitting axis span weight)
include fitting

theorem lengthOnRun (member : b ∈ run.standing) : (b.lengthOnRun axis).IsFinite ∧ 0 ≤ b.lengthOnRun axis := by
  unfold Box.lengthOnRun
  split
  · exact ⟨by decide,by decide⟩
  · rename_i fills
    exact fitting.sized b member fills

theorem allMargins_nonneg : 0 ≤ run.allMargins axis :=
  List.sum_nonneg (List.forall_mem_map.mpr fun b member => (fitting.spaced b member).marginsOn_nonneg)

theorem lengths_nonneg : 0 ≤ (run.standing.map fun b => (b.lengthOnRun axis).value).sum :=
  List.sum_nonneg (List.forall_mem_map.mpr fun _ member => value_nonneg (fitting.lengthOnRun member).2)

theorem exactLength_nonneg : 0 ≤ exactLength axis run.standing := by
  rw [exactLength_eq]
  exact add_nonneg fitting.allMargins_nonneg fitting.lengths_nonneg

theorem space_nonneg : 0 ≤ span.space.value := value_nonneg fitting.space.2

theorem weight_nonneg : 0 ≤ weight := fitting.exactLength_nonneg.trans fitting.light

theorem supply_le : 0 ≤ supply span weight ∧ supply span weight ≤ reach span weight := by
  have room := fitting.space_nonneg
  have weighs := fitting.weight_nonneg
  have far := abs_nonneg span.offset.value
  unfold supply reach
  constructor <;> linarith

theorem drift_nonneg : 0 ≤ run.drift span weight :=
  mul_nonneg fitting.supply_le.1 (sub_nonneg.mpr (one_le_growth (2 * run.standing.length + 5)))

theorem le_within {most : ℚ} {k : Nat} (nonneg : 0 ≤ most) (less : most ≤ reach span weight) (deep : k ≤ 5 * (run.standing.length + 2)) :
    most * growth k ≤ 2 ^ 126 := (mul_growth_le nonneg less deep).trans fitting.within

-- More children than that would grow beyond all numbers.
theorem few : run.standing.length ≤ 2 ^ 100 := by
  have one : 1 ≤ reach span weight := one_le_reach fitting.space.2 fitting.weight_nonneg
  have grown := le_growth_sub run.standing.length
  have more := fitting.le_within zero_le_one one (by omega : run.standing.length ≤ 5 * (run.standing.length + 2))
  have twice := fitting.le_within zero_le_one one (by omega : run.standing.length + run.standing.length ≤ 5 * (run.standing.length + 2))
  rw [one_mul,growth_add,← pow_two] at twice
  have root : growth run.standing.length ≤ 2 ^ 63 := (sq_le_sq₀ (growth_nonneg _) (by norm_num)).mp (twice.trans (by norm_num))
  rw [mul_one_div,div_le_iff₀ (by positivity)] at grown
  have many : (run.standing.length : ℚ) ≤ ((2 ^ 100 : Nat) : ℚ) := by
    refine grown.trans ?_
    norm_num [Number.Format.single]
    linarith
  exact_mod_cast many

theorem near_extra : Near (2 * run.standing.length + 2) (span.space.value + weight) (span.space - run.used) (run.leftover axis span) := by
  have nonneg := fitting.exactLength_nonneg
  have light := fitting.light
  have room := fitting.space_nonneg
  have far := abs_nonneg span.offset.value
  have large : span.space.value + weight ≤ reach span weight := by
    unfold reach
    linarith
  have used := near_runLength fitting.spaced (fun b => fitting.lengthOnRun) (fitting.le_within nonneg (by linarith) (by omega))
  have space := near_value fitting.space.1
  rw [abs_of_nonneg room] at space
  rw [fitting.tallied.counts.used]
  exact ((space.weaken (Nat.zero_le _) le_rfl).sub (used.weaken le_rfl light)
    (fitting.le_within (by linarith) large (by omega))).weaken (by omega) le_rfl

theorem near_part {parts : Nat} (any : 0 < parts) (few : parts ≤ 2 ^ 100) : ((span.space - run.used) / .ofNat parts).IsFinite ∧
    Close (2 * run.standing.length + 5) (supply span weight) (parts * ((span.space - run.used) / .ofNat parts).value) (run.leftover axis span) := by
  have size := fitting.supply_le
  have weighs := fitting.weight_nonneg
  have room := fitting.space_nonneg
  exact fitting.near_extra.div any few (fitting.le_within (by linarith) ((le_add_of_nonneg_right (by norm_num)).trans size.2) (by omega))

theorem leftover_ge (leftover : 0 < span.space - run.used) : -run.drift span weight ≤ run.leftover axis span := by
  have extra := value_nonneg (le_of_lt leftover)
  have close : Close (2 * run.standing.length + 5) (supply span weight) _ _ :=
    fitting.near_extra.close.weaken (by omega) (le_add_of_nonneg_right (by norm_num))
  have apart : _ ≤ run.drift span weight := (abs_le.mp close.error).2
  linarith

end Fitting

def Shares.spread (shares : Shares) (run : Run) : ℚ := |shares.lead.value| + (run.standing.length - 1) * |shares.gap.value|

theorem Shares.spread_nonneg (shares : Shares) (some : run.standing ≠ []) : 0 ≤ shares.spread run := by
  have one : (1 : ℚ) ≤ run.standing.length := by exact_mod_cast List.length_pos_iff.mpr some
  exact add_nonneg (abs_nonneg _) (mul_nonneg (sub_nonneg.mpr one) (abs_nonneg _))

-- What is handed out comes out of what is left over.
structure Shares.Funded (shares : Shares) (span : Span) (weight : ℚ) (run : Run) : Prop where
  filler : shares.filler.IsFinite
  lead : shares.lead.IsFinite
  gap : shares.gap.IsFinite
  paid : |run.fillers * shares.filler.value| + shares.spread run ≤ supply span weight * growth (2 * run.standing.length + 5)

namespace Shares

def filling (shares : Shares) (axis : Axis) (b : Box) : ℚ := if b.flags.fills axis = true then shares.filler.value else 0

structure Moderate (shares : Shares) (axis : Axis) (run : Run) (kept : Box → ℚ) : Prop where
  nonneg : ∀ b ∈ run.standing, 0 ≤ kept b
  given : ∀ b ∈ run.standing, (shares.ideal axis b).IsFinite ∧ (shares.first axis b).IsFinite
  turned : ∀ b ∈ run.standing, |(shares.first axis b).value| + |shares.gain axis b| ≤ 2 * kept b + |shares.filling axis b|

theorem sum_filling (shares : Shares) (axis : Axis) (run : Run) (tallied : run.Tallied axis) :
    (run.standing.map (shares.filling axis)).sum = run.fillers * shares.filler.value := by
  rw [fillers_eq tallied]
  exact sum_map_ite _ _ _

theorem sum_abs_filling (shares : Shares) (axis : Axis) (run : Run) (tallied : run.Tallied axis) :
    (run.standing.map fun b => |shares.filling axis b|).sum = |run.fillers * shares.filler.value| := by
  have each : ∀ b, |shares.filling axis b| = if b.flags.fills axis = true then |shares.filler.value| else 0 := fun b => by
    unfold filling
    rw [apply_ite abs,abs_zero]
  simp only [each]
  rw [sum_map_ite,fillers_eq tallied,abs_mul,Nat.abs_cast]

theorem Moderate.sum_nonneg {shares : Shares} {kept : Box → ℚ} (moderate : shares.Moderate axis run kept) : 0 ≤ (run.standing.map kept).sum :=
  List.sum_nonneg (List.forall_mem_map.mpr moderate.nonneg)

theorem Moderate.turnover_le {shares : Shares} {kept : Box → ℚ} (moderate : shares.Moderate axis run kept) (tallied : run.Tallied axis) :
    shares.turnover axis run.standing ≤ 2 * (run.standing.map kept).sum + |run.fillers * shares.filler.value| := by
  have turned := List.sum_le_sum moderate.turned
  rw [List.sum_map_add,List.sum_map_add,List.sum_map_mul_left,sum_abs_filling shares axis run tallied] at turned
  exact turned

theorem first_filler {shares : Shares} (fills : b.flags.fills axis = true) (low : ¬IsSet (b.effectiveMinimum axis))
    (finite : shares.filler.IsFinite) : (shares.first axis b).IsFinite ∧
      (shares.first axis b).value ≤ shares.filling axis b ∧
      |(shares.first axis b).value| + |shares.gain axis b| ≤ |shares.filling axis b| := by
  have ideal : shares.ideal axis b = shares.filler := if_pos fills
  unfold filling gain
  rw [first,ideal,if_pos fills]
  exact constrain_closer finite low (b.maximum axis)

theorem ideal_filler {shares : Shares} (fills : b.flags.fills axis = true) (finite : shares.filler.IsFinite) :
    (shares.ideal axis b).IsFinite ∧ (shares.ideal axis b).value = (b.lengthOnRun axis).value + shares.filling axis b := by
  have ideal : shares.ideal axis b = shares.filler := if_pos fills
  have own : b.lengthOnRun axis = 0 := if_pos fills
  rw [ideal,own,filling,if_pos fills,value_zero,zero_add]
  exact ⟨finite,rfl⟩

theorem nonneg_ideal {shares : Shares} (fills : ¬b.flags.fills axis = true) (nonneg : 0 ≤ b.extent axis) : 0 ≤ shares.ideal axis b := by
  unfold ideal
  rw [if_neg fills]
  split
  · exact nonneg
  · exact nonneg_positivePart

theorem nonneg_first {shares : Shares} (fills : ¬b.flags.fills axis = true) (nonneg : 0 ≤ b.extent axis) : 0 ≤ shares.first axis b :=
  nonneg_constrain (nonneg_ideal fills nonneg)

theorem ideal_other {shares : Shares} (fills : ¬b.flags.fills axis = true) (even : shares.eater = 0)
    (sized : (b.extent axis).IsFinite ∧ 0 ≤ b.extent axis) :
    (shares.ideal axis b).IsFinite ∧ (shares.ideal axis b).value = (b.lengthOnRun axis).value + shares.filling axis b := by
  have same := ideal_same fills even sized.2
  have own : b.lengthOnRun axis = b.extent axis := if_neg fills
  rw [own,filling,if_neg fills,add_zero]
  exact ⟨same.isFinite sized.1,same.value⟩

end Shares

namespace Fitting
variable {span : Span} (fitting : run.Fitting axis span weight) {shares : Shares}
include fitting

theorem ideal_even (even : shares.eater = 0) (finite : shares.filler.IsFinite) : ∀ b ∈ run.standing, (shares.ideal axis b).IsFinite ∧
    (shares.ideal axis b).value = (b.lengthOnRun axis).value + shares.filling axis b := by
  intro b member
  by_cases fills : b.flags.fills axis = true
  · exact Shares.ideal_filler fills finite
  · exact Shares.ideal_other fills even (fitting.sized b member fills)

-- The fillers are moderate by themselves, and so are the others if neither size they start
-- from is more than they keep.
theorem moderate (finite : shares.filler.IsFinite) {kept : Box → ℚ} (nonneg : ∀ b ∈ run.standing, 0 ≤ kept b)
    (others : ∀ b ∈ run.standing, ¬b.flags.fills axis = true → ((shares.ideal axis b).IsFinite ∧ (shares.first axis b).IsFinite) ∧
      (shares.ideal axis b).value ≤ kept b ∧ (shares.first axis b).value ≤ kept b) : shares.Moderate axis run kept := by
  refine ⟨nonneg,?_,?_⟩ <;> intro b member <;> by_cases fills : b.flags.fills axis = true
  · exact ⟨(Shares.ideal_filler fills finite).1,(Shares.first_filler fills (fitting.low b member fills) finite).1⟩
  · exact (others b member fills).1
  · have own := nonneg b member
    exact (Shares.first_filler fills (fitting.low b member fills) finite).2.2.trans (le_add_of_nonneg_left (by linarith))
  · obtain ⟨_,ideal,first⟩ := others b member fills
    have sized := (fitting.sized b member fills).2
    have positive : 0 ≤ (shares.ideal axis b).value := value_nonneg (Shares.nonneg_ideal fills sized)
    have positive' : 0 ≤ (shares.first axis b).value := value_nonneg (Shares.nonneg_first fills sized)
    have between : |shares.gain axis b| ≤ kept b := by
      unfold Shares.gain
      rw [abs_le]
      constructor <;> linarith
    rw [abs_of_nonneg positive']
    linarith [abs_nonneg (shares.filling axis b)]

theorem filling {alignment : Alignment} {wrap last : Bool}
    (shown : run.shares span.space alignment wrap last = shares) (leftover : 0 < span.space - run.used) (fills : 0 < run.fillers) :
    (shares.lead = 0 ∧ shares.gap = 0 ∧ shares.eater = 0) ∧ shares.Funded span weight run ∧
      Close (2 * run.standing.length + 5) (supply span weight) (run.fillers * shares.filler.value) (run.leftover axis span) := by
  have few : run.fillers ≤ run.standing.length := by
    rw [fitting.tallied.fillers]
    exact List.countP_le_length
  rw [shares_filling leftover fills] at shown
  rw [← shown]
  obtain ⟨finite,parts⟩ := fitting.near_part fills (few.trans fitting.few)
  refine ⟨⟨rfl,rfl,rfl⟩,⟨finite,isFinite_zero,isFinite_zero,?_⟩,parts⟩
  rw [Shares.spread,Shares.none,value_zero,abs_zero,mul_zero,add_zero,add_zero]
  exact parts.abs_le

-- Where there is nothing left over, nothing is handed out.
theorem funded_none (eater : Single) : { Shares.none with eater := eater }.Funded span weight run := by
  refine ⟨isFinite_zero,isFinite_zero,isFinite_zero,?_⟩
  simp only [Shares.spread,Shares.none,value_zero,abs_zero,mul_zero,add_zero]
  exact mul_nonneg fitting.supply_le.1 (growth_nonneg _)

end Fitting

structure Shares.Supplied (shares : Shares) (axis : Axis) (span : Span) (weight : ℚ) (run : Run) (kept : Box → ℚ) : Prop where
  moderate : shares.Moderate axis run kept
  light : run.allMargins axis + (run.standing.map kept).sum ≤ weight
  funded : shares.Funded span weight run

def turned (run : Run) (span : Span) (weight : ℚ) (kept : Box → ℚ) : ℚ := 2 * (run.standing.map kept).sum + supply span weight + 1 / 8

namespace Fitting
variable {span : Span} (fitting : run.Fitting axis span weight) {shares : Shares} {kept : Box → ℚ}
  (supplied : shares.Supplied axis span weight run kept)
include fitting supplied

theorem turnover_le : shares.turnover axis run.standing + 1 / 8 + shares.spread run ≤
    run.turned span weight kept * growth (2 * run.standing.length + 5) := by
  have turned := supplied.moderate.turnover_le fitting.tallied
  have keeps := supplied.moderate.sum_nonneg
  have paid := supplied.funded.paid
  have grown := le_mul_of_one_le_right (by linarith : 0 ≤ 2 * (run.standing.map kept).sum + 1 / 8) (one_le_growth (2 * run.standing.length + 5))
  unfold Run.turned
  linarith

theorem turned_le : 0 ≤ run.turned span weight kept ∧
    |span.offset.value| + run.allMargins axis + run.turned span weight kept ≤ reach span weight := by
  have margins := fitting.allMargins_nonneg
  have keeps := supplied.moderate.sum_nonneg
  have light := supplied.light
  have size := fitting.supply_le
  unfold turned
  refine ⟨by linarith,?_⟩
  unfold supply reach
  linarith

-- The first shares, the second ones and the sums are off one after another.
theorem rounding_ge : run.turned span weight kept * (growth (2 * run.standing.length + 5) - 1) +
    run.turned span weight kept * growth (2 * run.standing.length + 5) * (growth (run.standing.length + 5) - 1) +
    (|span.offset.value| + run.allMargins axis + run.turned span weight kept) * growth (2 * run.standing.length + 5 + (run.standing.length + 5)) *
      (growth (2 * run.standing.length) - 1) ≤ rounding span weight run.standing.length := by
  have margins := fitting.allMargins_nonneg
  have far := abs_nonneg span.offset.value
  have count : 2 * run.standing.length + 5 + (run.standing.length + 5) + 2 * run.standing.length = 5 * (run.standing.length + 2) := by ring
  have shared := growth_spread (le_refl (run.turned span weight kept)) (2 * run.standing.length + 5) (run.standing.length + 5)
  have whole := growth_spread (by linarith : run.turned span weight kept ≤ |span.offset.value| + run.allMargins axis + run.turned span weight kept)
    (2 * run.standing.length + 5 + (run.standing.length + 5)) (2 * run.standing.length)
  have all := mul_le_mul_of_nonneg_right (fitting.turned_le supplied).2 (sub_nonneg.mpr (one_le_growth (5 * (run.standing.length + 2))))
  rw [count] at whole
  unfold rounding
  linarith

variable (some : run.standing ≠ [])
include some

theorem turnover_within : (shares.turnover axis run.standing + 1 / 8) * growth (run.standing.length + 5) ≤ 2 ^ 126 := by
  have turned := fitting.turnover_le supplied
  have around := shares.spread_nonneg some
  obtain ⟨nonneg,large⟩ := fitting.turned_le supplied
  have margins := fitting.allMargins_nonneg
  have far := abs_nonneg span.offset.value
  refine (mul_le_mul_of_nonneg_right (by linarith : shares.turnover axis run.standing + 1 / 8 ≤
    run.turned span weight kept * growth (2 * run.standing.length + 5)) (growth_nonneg _)).trans ?_
  rw [mul_assoc,← growth_add]
  exact fitting.le_within nonneg (by linarith) (by omega)

variable (sizes : (run.standing.map fun b => |(shares.final axis (shares.bonus axis run.standing) b).value|).sum ≤
  (shares.turnover axis run.standing + 1 / 8) * growth (run.standing.length + 5))
include sizes

theorem amounts_le : |span.offset.value| + |shares.lead.value| +
    (run.standing.map fun b => b.marginsOn axis + |(shares.final axis (shares.bonus axis run.standing) b).value|).sum +
    (run.standing.length - 1) * |shares.gap.value| ≤
      (|span.offset.value| + run.allMargins axis + run.turned span weight kept) *
        growth (2 * run.standing.length + 5 + (run.standing.length + 5)) := by
  have margins := fitting.allMargins_nonneg
  have far := abs_nonneg span.offset.value
  have outside := le_mul_of_one_le_right (by linarith : 0 ≤ |span.offset.value| + run.allMargins axis)
    (one_le_growth (2 * run.standing.length + 5 + (run.standing.length + 5)))
  have inside := mul_le_mul_of_nonneg_right (fitting.turnover_le supplied) (growth_nonneg (run.standing.length + 5))
  have stretched := le_mul_of_one_le_right (shares.spread_nonneg some) (one_le_growth (run.standing.length + 5))
  have split : (run.standing.map fun b => b.marginsOn axis + |(shares.final axis (shares.bonus axis run.standing) b).value|).sum = _ :=
    List.sum_map_add
  change _ = run.allMargins axis + _ at split
  have spread : shares.spread run = |shares.lead.value| + (run.standing.length - 1) * |shares.gap.value| := rfl
  have deeper : growth (2 * run.standing.length + 5 + (run.standing.length + 5)) = _ := growth_add ..
  rw [split,add_mul _ (run.turned span weight kept),deeper,← mul_assoc (run.turned span weight kept),← deeper]
  linarith

variable {alignment : Alignment} {wrap last : Bool} (shown : run.shares span.space alignment wrap last = shares)
  (finite : ∀ b ∈ run.standing, (shares.final axis (shares.bonus axis run.standing) b).IsFinite)
include shown finite

-- The last child ends where all that was handed out leads.
theorem near_last : ∀ p ∈ ((run.place axis span alignment wrap last).filter (·.flags.inFlow)).getLast?,
    |p.outerEnd axis - (span.offset.value + run.allMargins axis + shares.lead.value + (run.standing.length - 1) * shares.gap.value +
      (run.standing.map fun b => (shares.final axis (shares.bonus axis run.standing) b).value).sum)| ≤
      (|span.offset.value| + run.allMargins axis + run.turned span weight kept) *
        growth (2 * run.standing.length + 5 + (run.standing.length + 5)) * (growth (2 * run.standing.length) - 1) := by
  obtain ⟨nonneg,large⟩ := fitting.turned_le supplied
  have margins := fitting.allMargins_nonneg
  have far := abs_nonneg span.offset.value
  have amounts := fitting.amounts_le supplied some sizes
  intro p found
  rw [standing_place,shown] at found
  have start := (near_value fitting.offset).weaken (Nat.zero_le (0 + 1)) le_rfl
  have ended := (Shares.near_placeFrom run.flows_standing fitting.spaced finite supplied.funded.gap start supplied.funded.lead (by
    refine (mul_le_mul_of_nonneg_right amounts (growth_nonneg _)).trans ?_
    rw [mul_assoc,← growth_add]
    exact fitting.le_within (by linarith) large (by omega)) p found).error
  have values : (run.standing.map fun b => b.marginsOn axis + (shares.final axis (shares.bonus axis run.standing) b).value).sum = _ :=
    List.sum_map_add
  change _ = run.allMargins axis + _ at values
  have order : span.offset.value + shares.lead.value + (run.allMargins axis +
      (run.standing.map fun b => (shares.final axis (shares.bonus axis run.standing) b).value).sum) + (run.standing.length - 1) * shares.gap.value =
      span.offset.value + run.allMargins axis + shares.lead.value + (run.standing.length - 1) * shares.gap.value +
        (run.standing.map fun b => (shares.final axis (shares.bonus axis run.standing) b).value).sum := by ring
  rw [values,zero_add,order] at ended
  exact ended.trans (mul_le_mul_of_nonneg_right amounts (sub_nonneg.mpr (one_le_growth _)))

-- Beside that there is room for what the first shares are off, and the second ones.
theorem near_end : ∀ p ∈ ((run.place axis span alignment wrap last).filter (·.flags.inFlow)).getLast?,
    |p.outerEnd axis - (span.offset.value + run.allMargins axis + shares.lead.value + (run.standing.length - 1) * shares.gap.value +
      (run.standing.map fun b => (shares.final axis (shares.bonus axis run.standing) b).value).sum)| +
        (shares.turnover axis run.standing + 1 / 8) * (growth (run.standing.length + 5) - 1) +
        (supply span weight + (run.standing.map kept).sum) * (growth (2 * run.standing.length + 5) - 1) ≤
      rounding span weight run.standing.length := by
  have turnover := fitting.turnover_le supplied
  have around := shares.spread_nonneg some
  have keeps := supplied.moderate.sum_nonneg
  have second := mul_le_mul_of_nonneg_right (by linarith : shares.turnover axis run.standing + 1 / 8 ≤
    run.turned span weight kept * growth (2 * run.standing.length + 5)) (sub_nonneg.mpr (one_le_growth (run.standing.length + 5)))
  have first : (supply span weight + (run.standing.map kept).sum) * _ ≤ run.turned span weight kept * _ :=
    mul_le_mul_of_nonneg_right (by unfold turned; linarith) (sub_nonneg.mpr (one_le_growth (2 * run.standing.length + 5)))
  intro p found
  have ended := fitting.near_last supplied some sizes shown finite p found
  linarith [fitting.rounding_ge supplied]

end Fitting

theorem fitting_of_range {span : Span} (tallied : run.Tallied axis) (spaced : ∀ b ∈ run.standing, b.Spaced axis)
    (nonneg : ∀ b ∈ run.standing, ¬b.flags.fills axis = true → 0 ≤ b.extent axis)
    (low : ∀ b ∈ run.standing, b.flags.fills axis = true → ¬IsSet (b.effectiveMinimum axis))
    (offset : span.offset.IsFinite) (space : 0 ≤ span.space) (light : exactLength axis run.standing ≤ weight)
    (within : InRange span weight run.standing.length) : run.Fitting axis span weight := by
  have nonneg' : ∀ b ∈ run.standing, 0 ≤ b.marginsOn axis + (b.lengthOnRun axis).value := by
    intro b member
    refine add_nonneg (spaced b member).marginsOn_nonneg (value_nonneg ?_)
    unfold Box.lengthOnRun
    split
    · decide
    · rename_i fills
      exact nonneg b member fills
  have total : 0 ≤ weight := (List.sum_nonneg (List.forall_mem_map.mpr nonneg')).trans light
  have room := value_nonneg space
  refine ⟨tallied,spaced,fun b member fills => ?_,low,offset,⟨within.isFinite space total space (by linarith),space⟩,light,within⟩
  have part : b.marginsOn axis + (b.lengthOnRun axis).value ≤ exactLength axis run.standing :=
    List.single_le_sum (List.forall_mem_map.mpr nonneg') _ (List.mem_map_of_mem member)
  have own : b.lengthOnRun axis = b.extent axis := if_neg fills
  have margins := (spaced b member).marginsOn_nonneg
  rw [own] at part
  exact ⟨within.isFinite space total (nonneg b member fills) (by linarith),nonneg b member fills⟩

end Run
end BoxLayout
