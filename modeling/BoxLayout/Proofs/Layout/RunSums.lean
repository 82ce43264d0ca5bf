import Mathlib.Algebra.BigOperators.Ring.List
import BoxLayout.Proofs.Number.Near
import BoxLayout.Proofs.Layout.Resized
import BoxLayout.Proofs.Layout.Runs

namespace BoxLayout
open Single

-- What a run adds up, with all roundings: the room its children ask for, what is shared out
-- among them, and where the last one ends.

variable {axis : Axis} {flow : List Box}

def Box.marginsOn (b : Box) (axis : Axis) : ℚ := (b.margins.start axis).value + (b.margins.finish axis).value

structure Box.Spaced (axis : Axis) (b : Box) : Prop where
  start : (b.margins.start axis).IsFinite
  finish : (b.margins.finish axis).IsFinite
  afterStart : 0 ≤ b.margins.start axis
  beforeFinish : 0 ≤ b.margins.finish axis

theorem Box.Spaced.marginsOn_nonneg {b : Box} (spaced : b.Spaced axis) : 0 ≤ b.marginsOn axis :=
  add_nonneg (value_nonneg spaced.afterStart) (value_nonneg spaced.beforeFinish)

def exactLength (axis : Axis) (flow : List Box) : ℚ := (flow.map fun b => b.marginsOn axis + (b.lengthOnRun axis).value).sum

-- Margins and size of one child are added in two steps, after the margins to each other.
theorem Box.Spaced.near_addOnRun {b : Box} {x : Single} {a m : ℚ} {k : Nat} (spaced : b.Spaced axis)
    (sized : (b.lengthOnRun axis).IsFinite ∧ 0 ≤ b.lengthOnRun axis) (near : Near k m x a) (deep : 1 ≤ k)
    (within : (m + (b.marginsOn axis + (b.lengthOnRun axis).value)) * growth (k + 2) ≤ 2 ^ 126) :
    Near (k + 2) (m + (b.marginsOn axis + (b.lengthOnRun axis).value)) (addOnRun axis x b)
      (a + (b.marginsOn axis + (b.lengthOnRun axis).value)) := by
  obtain ⟨start,finish,afterStart,beforeFinish⟩ := spaced
  have one := value_nonneg afterStart
  have two := value_nonneg beforeFinish
  have three := value_nonneg sized.2
  have nonneg := near.close.most_nonneg
  have margins := (near_value start).add (near_value finish)
  have length := near_value sized.1
  unfold marginsOn at within ⊢
  rw [abs_of_nonneg one,abs_of_nonneg two] at margins
  rw [abs_of_nonneg three] at length
  have passed := near.add ((margins ((mul_growth_le (add_nonneg one two) (by linarith) (Nat.zero_le _)).trans within)).weaken deep le_rfl)
    ((mul_growth_le (by linarith) (by linarith) (Nat.le_add_right k 2)).trans within)
  have whole := passed.add (length.weaken (Nat.zero_le _) le_rfl)
    ((mul_growth_le (by linarith) (by linarith) (Nat.le_succ (k + 1))).trans within)
  rwa [add_assoc m,add_assoc a] at whole

theorem near_runLength (spaced : ∀ b ∈ flow, b.Spaced axis)
    (sized : ∀ b ∈ flow, (b.lengthOnRun axis).IsFinite ∧ 0 ≤ b.lengthOnRun axis)
    (within : exactLength axis flow * growth (1 + flow.length * 2) ≤ 2 ^ 126) :
    Near (1 + flow.length * 2) (exactLength axis flow) (runLength axis flow) (exactLength axis flow) := by
  have nonneg : ∀ b ∈ flow, |b.marginsOn axis + (b.lengthOnRun axis).value| = b.marginsOn axis + (b.lengthOnRun axis).value := fun b member =>
    abs_of_nonneg (add_nonneg (spaced b member).marginsOn_nonneg (value_nonneg (sized b member).2))
  have total : (flow.map fun b => |b.marginsOn axis + (b.lengthOnRun axis).value|).sum = exactLength axis flow :=
    congrArg List.sum (List.map_congr_left nonneg)
  have steps : ∀ b ∈ flow, ∀ {x : Single} {a m : ℚ} {k : Nat}, Near k m x a → 1 ≤ k →
      (m + |b.marginsOn axis + (b.lengthOnRun axis).value|) * growth (k + 2) ≤ 2 ^ 126 →
      Near (k + 2) (m + |b.marginsOn axis + (b.lengthOnRun axis).value|) (addOnRun axis x b)
        (a + (b.marginsOn axis + (b.lengthOnRun axis).value)) := by
    intro b member x a m k near deep within
    rw [nonneg b member] at within ⊢
    exact (spaced b member).near_addOnRun (sized b member) near deep within
  have folded := near_foldl steps (near_zero.weaken (Nat.zero_le 1) le_rfl) le_rfl (by rwa [total,zero_add])
  rwa [total,zero_add,zero_add] at folded

theorem sum_map_ite {α : Type} (P : α → Prop) [DecidablePred P] (c : ℚ) (xs : List α) :
    (xs.map fun x => if P x then c else 0).sum = (xs.filter fun x => P x).length * c := by
  induction xs with
  | nil => simp
  | cons x rest ih =>
      by_cases holds : P x
      · rw [List.map_cons,List.sum_cons,ih,if_pos holds,List.filter_cons_of_pos (by simpa using holds),List.length_cons]
        push_cast
        ring
      · rw [List.map_cons,List.sum_cons,ih,if_neg holds,List.filter_cons_of_neg (by simpa using holds),zero_add]

theorem sum_abs_nonneg {α : Type} (amount : α → ℚ) (xs : List α) : 0 ≤ (xs.map fun x => |amount x|).sum :=
  List.sum_nonneg (List.forall_mem_map.mpr fun _ _ => abs_nonneg _)

namespace Run.Shares
variable {shares : Shares} {b : Box}

def gain (shares : Shares) (axis : Axis) (b : Box) : ℚ := (shares.ideal axis b).value - (shares.first axis b).value

def turnover (shares : Shares) (axis : Axis) (flow : List Box) : ℚ :=
  (flow.map fun b => |(shares.first axis b).value|).sum + (flow.map fun b => |shares.gain axis b|).sum

def takers (shares : Shares) (axis : Axis) (flow : List Box) : Nat := (flow.filter fun b => shares.Open axis b).length

theorem near_freed (given : ∀ b ∈ flow, (shares.ideal axis b).IsFinite ∧ (shares.first axis b).IsFinite)
    (within : (flow.map fun b => |shares.gain axis b|).sum * growth (1 + flow.length) ≤ 2 ^ 126) :
    Near (1 + flow.length) (flow.map fun b => |shares.gain axis b|).sum (shares.freed axis flow) (flow.map (shares.gain axis)).sum := by
  have steps : ∀ b ∈ flow, ∀ {x : Single} {a m : ℚ} {k : Nat}, Near k m x a → 1 ≤ k →
      (m + |shares.gain axis b|) * growth (k + 1) ≤ 2 ^ 126 →
      Near (k + 1) (m + |shares.gain axis b|) (x + (shares.ideal axis b - shares.first axis b)) (a + shares.gain axis b) := by
    intro b member x a m k near deep within
    have nonneg := near.close.most_nonneg
    have small : |shares.gain axis b| ≤ 2 ^ 126 := by
      have less : |shares.gain axis b| * growth 0 ≤ _ := mul_growth_le (abs_nonneg _) (le_add_of_nonneg_left nonneg) (Nat.zero_le (k + 1))
      rw [growth_zero,mul_one] at less
      exact less.trans within
    have freed := near_sub (given b member).1 (given b member).2 small
    exact near.add (freed.weaken deep le_rfl) ((mul_growth_le (by positivity) le_rfl (Nat.le_succ k)).trans within)
  have folded := near_foldl steps (near_zero.weaken (Nat.zero_le 1) le_rfl) le_rfl (by rwa [zero_add,mul_one])
  rw [zero_add,zero_add,mul_one] at folded
  have summed : shares.freed axis flow = flow.foldl (fun x b => x + (shares.ideal axis b - shares.first axis b)) 0 := List.foldl_map
  rwa [summed]

theorem bonus_eq_zero (none : shares.takers axis flow = 0) : shares.bonus axis flow = 0 := by
  unfold takers at none
  unfold bonus
  dsimp only
  rw [none,if_neg (Nat.lt_irrefl 0)]

theorem near_bonus (given : ∀ b ∈ flow, (shares.ideal axis b).IsFinite ∧ (shares.first axis b).IsFinite)
    (few : flow.length ≤ 2 ^ 100) (some : 0 < shares.takers axis flow)
    (within : (flow.map fun b => |shares.gain axis b|).sum * growth (1 + flow.length) ≤ 2 ^ 126) :
    (shares.bonus axis flow).IsFinite ∧ Close (flow.length + 4) ((flow.map fun b => |shares.gain axis b|).sum + 1 / 8)
      (shares.takers axis flow * (shares.bonus axis flow).value) (flow.map (shares.gain axis)).sum := by
  have shared : shares.bonus axis flow = shares.freed axis flow / .ofNat (shares.takers axis flow) := if_pos some
  obtain ⟨finite,close⟩ := (near_freed given within).div some (Nat.le_trans (List.length_filter_le _ _) few) within
  rw [shared]
  exact ⟨finite,close.weaken (by omega) le_rfl⟩

section Final
variable {bonus : Single} (first : (shares.first axis b).IsFinite) (given : bonus.IsFinite)
  (within : |(shares.first axis b).value| + |bonus.value| ≤ 2 ^ 126)
include first given within

theorem near_more : Near 1 (|(shares.first axis b).value| + |bonus.value|) (shares.first axis b + bonus)
    ((shares.first axis b).value + bonus.value) :=
  (near_value first).add (near_value given) (by rwa [growth_zero,mul_one])

theorem final_open (opened : shares.Open axis b) (low : ¬IsSet (b.effectiveMinimum axis)) :
    (shares.final axis bonus b).IsFinite ∧
      (shares.final axis bonus b).value ≤ (shares.first axis b).value + bonus.value +
        (|(shares.first axis b).value| + |bonus.value|) * (growth 1 - 1) ∧
      |(shares.final axis bonus b).value| ≤ (|(shares.first axis b).value| + |bonus.value|) * growth 1 := by
  have more := near_more first given within
  unfold final
  split
  · obtain ⟨finite,less,closer⟩ := constrain_closer more.finite low (b.maximum axis)
    have close := abs_le.mp more.close.error
    exact ⟨finite,less.trans (by linarith),((le_add_of_nonneg_right (abs_nonneg _)).trans closer).trans more.close.abs_le⟩
  · rename_i kept
    have nothing : bonus.value = 0 := by
      have same : bonus.Same 0 := Decidable.of_not_not fun some => kept ⟨opened,some⟩
      exact same.value.trans value_zero
    have size := abs_nonneg (shares.first axis b).value
    have grown := one_le_growth 1
    rw [nothing,abs_zero,add_zero,add_zero]
    exact ⟨first,le_add_of_nonneg_right (mul_nonneg size (sub_nonneg.mpr grown)),le_mul_of_one_le_right size grown⟩

theorem final_unclamped (opened : shares.Open axis b) (low : ¬IsSet (b.effectiveMinimum axis))
    (high : IsSet (b.maximum axis) → ¬bonus.Same 0 → shares.first axis b + bonus ≤ b.maximum axis) :
    (shares.first axis b).value + bonus.value - (|(shares.first axis b).value| + |bonus.value|) * (growth 1 - 1) ≤
      (shares.final axis bonus b).value := by
  have more := near_more first given within
  unfold final
  split
  · rename_i added
    have close := abs_le.mp more.close.error
    have kept : b.bounded axis (shares.first axis b + bonus) = shares.first axis b + bonus := by
      unfold Box.bounded constrain
      dsimp only
      rw [if_neg low]
      split
      · rename_i set
        exact min_eq_left (high set added.2)
      · rfl
    rw [kept]
    linarith
  · rename_i kept
    have nothing : bonus.value = 0 := by
      have same : bonus.Same 0 := Decidable.of_not_not fun some => kept ⟨opened,some⟩
      exact same.value.trans value_zero
    have spread := mul_nonneg (abs_nonneg (shares.first axis b).value) (sub_nonneg.mpr (one_le_growth 1))
    rw [nothing,abs_zero,add_zero,add_zero]
    linarith

end Final

theorem final_closed {bonus : Single} (closed : ¬shares.Open axis b) : shares.final axis bonus b = shares.first axis b :=
  if_neg fun both => closed both.1

structure Handed (shares : Shares) (axis : Axis) (flow : List Box) : Prop where
  given : ∀ b ∈ flow, (shares.ideal axis b).IsFinite ∧ (shares.first axis b).IsFinite
  low : ∀ b ∈ flow, b.flags.fills axis = true → ¬IsSet (b.effectiveMinimum axis)
  few : flow.length ≤ 2 ^ 100
  taken : 0 < shares.takers axis flow
  within : (shares.turnover axis flow + 1 / 8) * growth (flow.length + 5) ≤ 2 ^ 126

structure Paid (shares : Shares) (axis : Axis) (flow : List Box) (bonus : Single) : Prop where
  finite : bonus.IsFinite
  one : ∀ b ∈ flow, |(shares.first axis b).value| + |bonus.value| ≤ 2 ^ 126
  all : (flow.map fun b => |(shares.first axis b).value|).sum + shares.takers axis flow * |bonus.value| ≤
    (shares.turnover axis flow + 1 / 8) * growth (flow.length + 4)
  balance : |(flow.map fun b => (shares.first axis b).value).sum + shares.takers axis flow * bonus.value -
    (flow.map fun b => (shares.ideal axis b).value).sum| ≤ (shares.turnover axis flow + 1 / 8) * (growth (flow.length + 4) - 1)

theorem Handed.paid (handed : shares.Handed axis flow) : shares.Paid axis flow (shares.bonus axis flow) := by
  obtain ⟨given,_,few,taken,within⟩ := handed
  have firsts := sum_abs_nonneg (fun b => (shares.first axis b).value) flow
  have gains := sum_abs_nonneg (shares.gain axis) flow
  have whole : shares.turnover axis flow = (flow.map fun b => |(shares.first axis b).value|).sum +
    (flow.map fun b => |shares.gain axis b|).sum := rfl
  obtain ⟨finite,close⟩ := near_bonus given few taken
    ((mul_growth_le gains (by linarith) (by omega : 1 + flow.length ≤ flow.length + 5)).trans within)
  generalize shares.bonus axis flow = bonus at *
  have some : (1 : ℚ) ≤ shares.takers axis flow := by exact_mod_cast taken
  have grown := one_le_growth (flow.length + 4)
  have all : (flow.map fun b => |(shares.first axis b).value|).sum + shares.takers axis flow * |bonus.value| ≤
      (shares.turnover axis flow + 1 / 8) * growth (flow.length + 4) := by
    have size := close.abs_le
    have kept := le_mul_of_one_le_right firsts grown
    rw [abs_mul,Nat.abs_cast] at size
    rw [whole]
    linarith
  refine ⟨finite,fun b member => ?_,all,?_⟩
  · have one : |bonus.value| ≤ shares.takers axis flow * |bonus.value| := le_mul_of_one_le_left (abs_nonneg _) some
    have part : |(shares.first axis b).value| ≤ (flow.map fun b => |(shares.first axis b).value|).sum :=
      List.single_le_sum (List.forall_mem_map.mpr fun _ _ => abs_nonneg _) _ (List.mem_map_of_mem member)
    have more := mul_growth_le (by linarith : 0 ≤ shares.turnover axis flow + 1 / 8) le_rfl (Nat.le_succ (flow.length + 4))
    linarith
  · have split : (flow.map fun b => (shares.ideal axis b).value).sum =
        (flow.map fun b => (shares.first axis b).value).sum + (flow.map (shares.gain axis)).sum := by
      rw [← List.sum_map_add]
      exact congrArg List.sum (List.map_congr_left fun b _ => (add_sub_cancel _ _).symm)
    rw [split,add_sub_add_left_eq_sub]
    refine close.error.trans (mul_le_mul_of_nonneg_right ?_ (sub_nonneg.mpr grown))
    linarith

theorem sum_final_le (handed : shares.Handed axis flow) :
    (∀ b ∈ flow, (shares.final axis (shares.bonus axis flow) b).IsFinite) ∧
      (flow.map fun b => (shares.final axis (shares.bonus axis flow) b).value).sum ≤
        (flow.map fun b => (shares.ideal axis b).value).sum + (shares.turnover axis flow + 1 / 8) * (growth (flow.length + 5) - 1) ∧
      (flow.map fun b => |(shares.final axis (shares.bonus axis flow) b).value|).sum ≤
        (shares.turnover axis flow + 1 / 8) * growth (flow.length + 5) := by
  obtain ⟨finite,one,all,balance⟩ := handed.paid
  generalize shares.bonus axis flow = bonus at *
  have grown := one_le_growth 1
  have each : ∀ b ∈ flow, (shares.final axis bonus b).IsFinite ∧
      (shares.final axis bonus b).value ≤ (shares.first axis b).value + |(shares.first axis b).value| * (growth 1 - 1) +
        (if shares.Open axis b then bonus.value + |bonus.value| * (growth 1 - 1) else 0) ∧
      |(shares.final axis bonus b).value| ≤ |(shares.first axis b).value| * growth 1 +
        if shares.Open axis b then |bonus.value| * growth 1 else 0 := by
    intro b member
    by_cases opened : shares.Open axis b
    · rw [if_pos opened,if_pos opened]
      obtain ⟨number,less,size⟩ := final_open (handed.given b member).2 finite (one b member) opened (handed.low b member opened.1)
      exact ⟨number,by linarith,by linarith⟩
    · have size := abs_nonneg (shares.first axis b).value
      rw [final_closed opened,if_neg opened,if_neg opened,add_zero,add_zero]
      exact ⟨(handed.given b member).2,le_add_of_nonneg_right (mul_nonneg size (sub_nonneg.mpr grown)),le_mul_of_one_le_right size grown⟩
  have spread := mul_le_mul_of_nonneg_right all (sub_nonneg.mpr grown)
  have spread' := mul_le_mul_of_nonneg_right all (growth_nonneg 1)
  have close := abs_le.mp balance
  have deeper : growth (flow.length + 5) = growth (flow.length + 4) * growth 1 := growth_add (flow.length + 4) 1
  rw [deeper]
  refine ⟨fun b member => (each b member).1,?_,?_⟩
  · have bound := List.sum_le_sum fun b member => (each b member).2.1
    rw [List.sum_map_add,List.sum_map_add,sum_map_ite,List.sum_map_mul_right] at bound
    change _ ≤ _ + (shares.takers axis flow : ℚ) * _ at bound
    linarith
  · have bound := List.sum_le_sum fun b member => (each b member).2.2
    rw [List.sum_map_add,sum_map_ite,List.sum_map_mul_right] at bound
    change _ ≤ _ + (shares.takers axis flow : ℚ) * _ at bound
    linarith

theorem le_sum_final (handed : shares.Handed axis flow)
    (high : ∀ b ∈ flow, shares.Open axis b → IsSet (b.maximum axis) → ¬(shares.bonus axis flow).Same 0 →
      shares.first axis b + shares.bonus axis flow ≤ b.maximum axis) :
    (flow.map fun b => (shares.ideal axis b).value).sum ≤
      (flow.map fun b => (shares.final axis (shares.bonus axis flow) b).value).sum +
        (shares.turnover axis flow + 1 / 8) * (growth (flow.length + 5) - 1) := by
  obtain ⟨finite,one,all,balance⟩ := handed.paid
  generalize shares.bonus axis flow = bonus at *
  have grown := one_le_growth 1
  have each : ∀ b ∈ flow, (shares.first axis b).value + |(shares.first axis b).value| * (1 - growth 1) +
      (if shares.Open axis b then bonus.value + |bonus.value| * (1 - growth 1) else 0) ≤ (shares.final axis bonus b).value := by
    intro b member
    by_cases opened : shares.Open axis b
    · have least := final_unclamped (handed.given b member).2 finite (one b member) opened (handed.low b member opened.1) (high b member opened)
      rw [if_pos opened]
      linarith
    · rw [final_closed opened,if_neg opened,add_zero]
      exact add_le_of_nonpos_right (mul_nonpos_of_nonneg_of_nonpos (abs_nonneg _) (sub_nonpos.mpr grown))
  have spread := mul_le_mul_of_nonneg_right all (sub_nonneg.mpr grown)
  have close := abs_le.mp balance
  have deeper : growth (flow.length + 5) = growth (flow.length + 4) * growth 1 := growth_add (flow.length + 4) 1
  have bound := List.sum_le_sum each
  rw [List.sum_map_add,List.sum_map_add,sum_map_ite,List.sum_map_mul_right] at bound
  change _ + (shares.takers axis flow : ℚ) * _ ≤ _ at bound
  rw [deeper]
  linarith

-- Bounds for what each child gets hold of all of them together, whether or not a filler is
-- there to make up for the bounds of the others.
theorem sum_final_le_target (given : ∀ b ∈ flow, (shares.ideal axis b).IsFinite ∧ (shares.first axis b).IsFinite)
    (low : ∀ b ∈ flow, b.flags.fills axis = true → ¬IsSet (b.effectiveMinimum axis)) (few : flow.length ≤ 2 ^ 100)
    (within : (shares.turnover axis flow + 1 / 8) * growth (flow.length + 5) ≤ 2 ^ 126) {target : Box → ℚ}
    (ideal : ∀ b ∈ flow, (shares.ideal axis b).value ≤ target b)
    (first : shares.takers axis flow = 0 → ∀ b ∈ flow, (shares.first axis b).value ≤ target b) :
    (∀ b ∈ flow, (shares.final axis (shares.bonus axis flow) b).IsFinite) ∧
      (flow.map fun b => (shares.final axis (shares.bonus axis flow) b).value).sum ≤
        (flow.map target).sum + (shares.turnover axis flow + 1 / 8) * (growth (flow.length + 5) - 1) ∧
      (flow.map fun b => |(shares.final axis (shares.bonus axis flow) b).value|).sum ≤
        (shares.turnover axis flow + 1 / 8) * growth (flow.length + 5) := by
  by_cases none : shares.takers axis flow = 0
  · have kept : ∀ b, shares.final axis (shares.bonus axis flow) b = shares.first axis b := fun b => by
      rw [bonus_eq_zero none]
      exact if_neg fun given => given.2 (by decide)
    simp only [kept]
    have firsts := sum_abs_nonneg (fun b => (shares.first axis b).value) flow
    have gains := sum_abs_nonneg (shares.gain axis) flow
    have whole : shares.turnover axis flow = (flow.map fun b => |(shares.first axis b).value|).sum +
      (flow.map fun b => |shares.gain axis b|).sum := rfl
    have nonneg : 0 ≤ shares.turnover axis flow + 1 / 8 := by linarith
    have grown := one_le_growth (flow.length + 5)
    have spread := mul_nonneg nonneg (sub_nonneg.mpr grown)
    have targets := List.sum_le_sum (first none)
    exact ⟨fun b member => (given b member).2,by linarith,by linarith⟩
  · obtain ⟨finite,less,size⟩ := sum_final_le ⟨given,low,few,Nat.pos_of_ne_zero none,within⟩
    have ideals := List.sum_le_sum ideal
    exact ⟨finite,by linarith,size⟩

end Run.Shares

def Box.outerEnd (b : Box) (axis : Axis) : ℚ := (b.start axis).value + (b.extent axis).value + (b.margins.finish axis).value

theorem Box.Spaced.near_past {b : Box} {cursor gap size : Single} {c m : ℚ} {k : Nat} (margins : b.Spaced axis)
    (at_cursor : Near (k + 1) m cursor c) (before : gap.IsFinite) (sized : size.IsFinite)
    (within : (m + |gap.value| + (b.marginsOn axis + |size.value|)) * growth (k + 2) ≤ 2 ^ 126) :
    Close (k + 2) (m + |gap.value| + (b.marginsOn axis + |size.value|))
        ((cursor + (b.margins.start axis + gap)).value + size.value + (b.margins.finish axis).value)
        (c + gap.value + (b.marginsOn axis + size.value)) ∧
      Near (k + 3) (m + |gap.value| + (b.marginsOn axis + |size.value|))
        (cursor + (b.margins.start axis + gap) + (size + b.margins.finish axis)) (c + gap.value + (b.marginsOn axis + size.value)) := by
  have leading := value_nonneg margins.afterStart
  have trailing := value_nonneg margins.beforeFinish
  have nonneg := at_cursor.close.most_nonneg
  have space := abs_nonneg gap.value
  have extent := abs_nonneg size.value
  have gapped := (near_value margins.start).add (near_value before)
  have outer := (near_value sized).add (near_value margins.finish)
  unfold marginsOn at within ⊢
  rw [abs_of_nonneg leading] at gapped
  rw [abs_of_nonneg trailing] at outer
  have gapped' := gapped ((mul_growth_le (by linarith) (by linarith) (Nat.zero_le _)).trans within)
  have outer' := outer ((mul_growth_le (by linarith) (by linarith) (Nat.zero_le _)).trans within)
  have start := at_cursor.add (gapped'.weaken (Nat.le_add_left 1 k) le_rfl) ((mul_growth_le (by linarith) (by linarith) (Nat.le_succ _)).trans within)
  have amount : m + ((b.margins.start axis).value + |gap.value|) + (|size.value| + (b.margins.finish axis).value) =
      m + |gap.value| + ((b.margins.start axis).value + (b.margins.finish axis).value + |size.value|) := by ring
  have whole : c + ((b.margins.start axis).value + gap.value) + (size.value + (b.margins.finish axis).value) =
      c + gap.value + ((b.margins.start axis).value + (b.margins.finish axis).value + size.value) := by ring
  have next := start.add (outer'.weaken (by omega) le_rfl) (by rwa [amount])
  have size' : Close 0 (|size.value| + (b.margins.finish axis).value) (size.value + (b.margins.finish axis).value)
      (size.value + (b.margins.finish axis).value) := by
    have exactly := (Close.refl size.value).add (Close.refl (b.margins.finish axis).value)
    rwa [abs_of_nonneg trailing] at exactly
  have ended := start.close.add (size'.weaken (Nat.zero_le _) le_rfl)
  rw [amount,whole] at next ended
  rw [← add_assoc (cursor + (b.margins.start axis + gap)).value] at ended
  exact ⟨ended,next⟩

namespace Run.Shares
variable {shares : Shares} {bonus : Single}

theorem placeFrom_cons {b : Box} (flows : b.flags.inFlow = true) (cursor gap : Single) (rest : List Box) :
    shares.placeFrom axis bonus cursor gap (b :: rest) =
      (b.withStart axis (cursor + (b.margins.start axis + gap))).withExtent axis (shares.final axis bonus b) ::
        shares.placeFrom axis bonus (cursor + (b.margins.start axis + gap) + (shares.final axis bonus b + b.margins.finish axis))
          shares.gap rest := if_neg (by simp [flows])

theorem outerEnd_placed (b : Box) (axis : Axis) (start size : Single) :
    ((b.withStart axis start).withExtent axis size).outerEnd axis = start.value + size.value + (b.margins.finish axis).value := by
  simp only [Box.outerEnd,Box.start_withExtent,Box.start_withStart,Box.extent_withExtent,if_true]
  rfl

theorem near_placeFrom (flows : ∀ b ∈ flow, b.flags.inFlow = true) (spaced : ∀ b ∈ flow, b.Spaced axis)
    (finite : ∀ b ∈ flow, (shares.final axis bonus b).IsFinite) (between : shares.gap.IsFinite)
    {cursor gap : Single} {c m : ℚ} {k : Nat} (at_cursor : Near (k + 1) m cursor c) (before : gap.IsFinite)
    (within : (m + |gap.value| + (flow.map fun b => b.marginsOn axis + |(shares.final axis bonus b).value|).sum +
      (flow.length - 1) * |shares.gap.value|) * growth (k + 2 * flow.length) ≤ 2 ^ 126) :
    ∀ last ∈ (shares.placeFrom axis bonus cursor gap flow).getLast?,
      Close (k + 2 * flow.length) (m + |gap.value| + (flow.map fun b => b.marginsOn axis + |(shares.final axis bonus b).value|).sum +
          (flow.length - 1) * |shares.gap.value|) (last.outerEnd axis)
        (c + gap.value + (flow.map fun b => b.marginsOn axis + (shares.final axis bonus b).value).sum +
          (flow.length - 1) * shares.gap.value) := by
  induction flow generalizing cursor gap c m k with
  | nil => exact fun _ none => absurd none (by simp [placeFrom])
  | cons b rest ih =>
      obtain ⟨here,flows⟩ := List.forall_mem_cons.mp flows
      obtain ⟨margins,spaced⟩ := List.forall_mem_cons.mp spaced
      obtain ⟨size,finite⟩ := List.forall_mem_cons.mp finite
      simp only [List.map_cons,List.sum_cons,List.length_cons] at within ⊢
      push_cast at within ⊢
      rw [add_sub_cancel_right] at within ⊢
      have nonneg := at_cursor.close.most_nonneg
      have room := margins.marginsOn_nonneg
      have others : 0 ≤ (rest.map fun b => b.marginsOn axis + |(shares.final axis bonus b).value|).sum :=
        List.sum_nonneg fun amount member => by
          obtain ⟨b,listed,rfl⟩ := List.mem_map.mp member
          exact add_nonneg (spaced b listed).marginsOn_nonneg (abs_nonneg _)
      have later : 0 ≤ (rest.length : ℚ) * |shares.gap.value| := by positivity
      have total := abs_nonneg gap.value
      have extent := abs_nonneg (shares.final axis bonus b).value
      obtain ⟨ended,next⟩ := margins.near_past at_cursor before size
        ((mul_growth_le (by linarith) (by linarith) (by omega)).trans within)
      rw [placeFrom_cons here]
      intro last found
      cases rest with
      | nil =>
          rw [placeFrom,List.getLast?_singleton,Option.mem_some_iff] at found
          rw [← found,outerEnd_placed]
          simpa using ended
      | cons second more =>
          have here' := (List.forall_mem_cons.mp flows).1
          rw [placeFrom_cons here',List.getLast?_cons_cons,← placeFrom_cons here'] at found
          have deeper : k + 2 + 2 * (second :: more).length = k + 2 * ((second :: more).length + 1) := by ring
          have gaps : ∀ n x y z g : ℚ, x + (y + z) + n * g = x + y + g + z + (n - 1) * g := fun n x y z g => by ring
          rw [gaps,← deeper] at within
          rw [gaps,gaps,← deeper]
          exact ih flows spaced finite next between within last found

end Run.Shares
end BoxLayout
