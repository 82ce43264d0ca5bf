import Mathlib.Algebra.BigOperators.Group.List.Basic
import Mathlib.Algebra.Order.Ring.Pow
import BoxLayout.Proofs.Number.Value

namespace BoxLayout
open Number

-- Sums followed through their roundings. With each of them a number may grow by one factor,
-- and it is off by no more than all that growth of the largest amount it is made of.

namespace Single
variable {x y : Single} {a b m l v w : ℚ} {j k : Nat}

def growth (k : Nat) : ℚ := (1 + 1 / 2 ^ Format.single.precision) ^ k

theorem growth_zero : growth 0 = 1 := pow_zero _

theorem growth_add (j k : Nat) : growth (j + k) = growth j * growth k := pow_add ..

theorem growth_mono (less : j ≤ k) : growth j ≤ growth k := pow_le_pow_right₀ (le_add_of_nonneg_right (by positivity)) less

theorem one_le_growth (k : Nat) : 1 ≤ growth k := one_le_pow₀ (le_add_of_nonneg_right (by positivity))

theorem growth_nonneg (k : Nat) : 0 ≤ growth k := zero_le_one.trans (one_le_growth k)

theorem le_growth_sub (k : Nat) : k * (1 / 2 ^ Format.single.precision) ≤ growth k - 1 := by
  have bernoulli := one_add_mul_le_pow (by norm_num [Format.single] : (-2 : ℚ) ≤ 1 / 2 ^ Format.single.precision) k
  unfold growth
  linarith

theorem growth_le (few : k ≤ 2 ^ Format.single.precision) :
    growth k ≤ 1 + k / 2 ^ Format.single.precision + (k / 2 ^ Format.single.precision) ^ 2 := by
  induction k with
  | zero => rw [growth_zero,Nat.cast_zero,zero_div]; norm_num
  | succ k ih =>
      have less : (k : ℚ) / 2 ^ Format.single.precision ≤ 1 := by
        rw [div_le_one (by positivity)]
        exact_mod_cast Nat.le_of_succ_le few
      have small := ih (Nat.le_of_succ_le few)
      have one : growth 1 = 1 + 1 / 2 ^ Format.single.precision := pow_one _
      have unit : (0 : ℚ) ≤ 1 / 2 ^ Format.single.precision := by positivity
      have whole : ((k + 1 : Nat) : ℚ) / 2 ^ Format.single.precision = k / 2 ^ Format.single.precision + 1 / 2 ^ Format.single.precision := by
        push_cast
        rw [add_div]
      rw [growth_add,one,whole]
      have part : (0 : ℚ) ≤ k / 2 ^ Format.single.precision := by positivity
      generalize (k : ℚ) / 2 ^ Format.single.precision = p at *
      generalize (1 : ℚ) / 2 ^ Format.single.precision = u at *
      have product := mul_le_mul_of_nonneg_right small (by linarith : 0 ≤ 1 + u)
      have square : p ^ 2 * u ≤ p * u := mul_le_mul_of_nonneg_right (by rw [pow_two]; exact mul_le_of_le_one_left part less) unit
      calc growth k * (1 + u) ≤ (1 + p + p ^ 2) * (1 + u) := product
        _ = 1 + (p + u) + (p ^ 2 + p * u + p ^ 2 * u) := by ring
        _ ≤ 1 + (p + u) + (p + u) ^ 2 := by linarith [sq_nonneg u,(by ring : (p + u) ^ 2 = p ^ 2 + p * u + p * u + u ^ 2)]

theorem mul_growth_le (nonneg : 0 ≤ m) (less : m ≤ l) (deeper : j ≤ k) : m * growth j ≤ l * growth k :=
  mul_le_mul less (growth_mono deeper) (growth_nonneg j) (nonneg.trans less)

theorem growth_spread (less : l ≤ m) (j k : Nat) : l * (growth j - 1) + m * growth j * (growth k - 1) ≤ m * (growth (j + k) - 1) := by
  have part := mul_le_mul_of_nonneg_right less (sub_nonneg.mpr (one_le_growth j))
  rw [growth_add]
  linarith

-- A number so many roundings away from another that is at most so large.
structure Close (k : Nat) (most : ℚ) (v a : ℚ) : Prop where
  size : |a| ≤ most
  error : |v - a| ≤ most * (growth k - 1)

namespace Close

theorem most_nonneg (close : Close k m v a) : 0 ≤ m := (abs_nonneg a).trans close.size

theorem refl (a : ℚ) : Close 0 |a| a a := ⟨le_rfl,by rw [growth_zero,sub_self,sub_self,abs_zero,mul_zero]⟩

theorem weaken (close : Close k m v a) (deeper : k ≤ j) (more : m ≤ l) : Close j l v a := by
  refine ⟨close.size.trans more,close.error.trans ?_⟩
  exact mul_le_mul more (sub_le_sub_right (growth_mono deeper) 1) (sub_nonneg.mpr (one_le_growth k)) (close.most_nonneg.trans more)

theorem abs_le (close : Close k m v a) : |v| ≤ m * growth k := by
  have apart := abs_sub_abs_le_abs_sub v a
  linarith [close.size,close.error]

theorem add (one : Close k m v a) (two : Close k l w b) : Close k (m + l) (v + w) (a + b) := by
  refine ⟨(abs_add_le a b).trans (add_le_add one.size two.size),?_⟩
  calc |v + w - (a + b)| = |(v - a) + (w - b)| := by rw [add_sub_add_comm]
    _ ≤ |v - a| + |w - b| := abs_add_le _ _
    _ ≤ (m + l) * (growth k - 1) := by linarith [one.error,two.error]

theorem neg (close : Close k m v a) : Close k m (-v) (-a) := by
  refine ⟨(abs_neg a).trans_le close.size,?_⟩
  rw [neg_sub_neg,abs_sub_comm]
  exact close.error

-- What is close to something close has come through the roundings of both.
theorem trans (first : Close k m w a) (second : |v - w| ≤ m * growth k * (growth j - 1)) : Close (k + j) m v a := by
  refine ⟨first.size,?_⟩
  calc |v - a| ≤ |v - w| + |w - a| := abs_sub_le v w a
    _ ≤ m * growth k * (growth j - 1) + m * (growth k - 1) := add_le_add second first.error
    _ = m * (growth (k + j) - 1) := by
      rw [growth_add]
      ring

theorem round (close : Close k m v a) (error : |w - v| ≤ |v| / 2 ^ Format.single.precision) : Close (k + 1) m w a := by
  have one : growth 1 - 1 = 1 / 2 ^ Format.single.precision := by rw [growth,pow_one,add_sub_cancel_left]
  refine close.trans (error.trans ?_)
  rw [one,mul_one_div]
  exact div_le_div_of_nonneg_right close.abs_le (by positivity)

theorem sum {α : Type} {xs : List α} {most value exactly : α → ℚ} (each : ∀ x ∈ xs, Close k (most x) (value x) (exactly x)) :
    Close k (xs.map most).sum (xs.map value).sum (xs.map exactly).sum := by
  induction xs with
  | nil => exact (refl 0).weaken (Nat.zero_le k) (abs_zero (α := ℚ)).le
  | cons x rest ih =>
      obtain ⟨here,others⟩ := List.forall_mem_cons.mp each
      exact here.add (ih others)

end Close

structure Near (k : Nat) (most : ℚ) (x : Single) (a : ℚ) : Prop where
  finite : x.IsFinite
  close : Close k most x.value a

theorem near_value (finite : x.IsFinite) : Near 0 |x.value| x x.value := ⟨finite,.refl _⟩

theorem near_zero : Near 0 0 0 0 := by
  have near := near_value isFinite_zero
  rwa [value_zero,abs_zero] at near

theorem near_sub (left : x.IsFinite) (right : y.IsFinite) (within : |x.value - y.value| ≤ 2 ^ 126) :
    Near 1 |x.value - y.value| (x - y) (x.value - y.value) := by
  have negated : (-y).IsFinite := by cases y <;> exact right
  have both : x.value + (-y).value = x.value - y.value := by rw [value_neg,sub_eq_add_neg]
  obtain ⟨finite,error⟩ := add_error left negated (by rw [both]; exact within.trans (by norm_num))
  rw [both] at error
  exact ⟨finite,(Close.refl _).round error⟩

namespace Near

theorem weaken (near : Near k m x a) (deeper : k ≤ j) (more : m ≤ l) : Near j l x a := ⟨near.finite,near.close.weaken deeper more⟩

theorem add (one : Near k m x a) (two : Near k l y b) (within : (m + l) * growth k ≤ 2 ^ 126) : Near (k + 1) (m + l) (x + y) (a + b) := by
  have close := one.close.add two.close
  obtain ⟨finite,error⟩ := add_error one.finite two.finite (close.abs_le.trans (within.trans (by norm_num)))
  exact ⟨finite,close.round error⟩

theorem sub (one : Near k m x a) (two : Near k l y b) (within : (m + l) * growth k ≤ 2 ^ 126) : Near (k + 1) (m + l) (x - y) (a - b) := by
  have negated : Near k l (-y) (-b) := by
    refine ⟨?_,by rw [value_neg]; exact two.close.neg⟩
    have finite := two.finite
    cases y <;> exact finite
  have added := one.add negated within
  rwa [← sub_eq_add_neg a b] at added

theorem div (near : Near k m x a) {parts : Nat} (some : 0 < parts) (few : parts ≤ 2 ^ 100) (within : m * growth k ≤ 2 ^ 126) :
    (x / ofNat parts).IsFinite ∧ Close (k + 3) (m + 1 / 8) (parts * (x / ofNat parts).value) a := by
  have some' : (0 : ℚ) < parts := by exact_mod_cast some
  have few' : (parts : ℚ) ≤ 2 ^ 100 := by exact_mod_cast few
  have size := near.close.abs_le
  obtain ⟨finite,error⟩ := part_error near.finite some (few'.trans (by norm_num)) (size.trans within)
  refine ⟨finite,(near.close.weaken le_rfl (le_add_of_nonneg_right (by norm_num))).trans ?_⟩
  have whole : |parts * (x / ofNat parts).value - x.value| = parts * |(x / ofNat parts).value - x.value / parts| := by
    rw [← abs_of_pos some',← abs_mul,abs_of_pos some',mul_sub,mul_div_cancel₀ _ some'.ne']
  have parted : parts * |x.value / parts| = |x.value| := by
    rw [abs_div,abs_of_pos some',mul_div_cancel₀ _ some'.ne']
  have three := le_growth_sub 3
  have grown : 1 / 8 ≤ 1 / 8 * growth k := le_mul_of_one_le_right (by norm_num) (one_le_growth k)
  rw [whole]
  calc parts * |(x / ofNat parts).value - x.value / parts|
      ≤ parts * (|x.value / parts| * (3 / 2 ^ Format.single.precision) + 1 / 2 / 2 ^ Format.single.scale) :=
        mul_le_mul_of_nonneg_left error some'.le
    _ = |x.value| * (3 / 2 ^ Format.single.precision) + parts / 2 / 2 ^ Format.single.scale := by rw [mul_add,← mul_assoc,parted]; ring
    _ ≤ m * growth k * (3 / 2 ^ Format.single.precision) + 1 / 8 * (3 / 2 ^ Format.single.precision) := by
        refine add_le_add (mul_le_mul_of_nonneg_right size (by positivity)) ?_
        have least : (2 : ℚ) ^ 100 / 2 / 2 ^ Format.single.scale ≤ 1 / 8 * (3 / 2 ^ Format.single.precision) := by norm_num [Format.single]
        exact (div_le_div_of_nonneg_right (div_le_div_of_nonneg_right few' (by norm_num)) (by positivity)).trans least
    _ ≤ (m + 1 / 8) * growth k * (3 / 2 ^ Format.single.precision) := by
        rw [← add_mul]
        exact mul_le_mul_of_nonneg_right (by linarith) (by positivity)
    _ ≤ (m + 1 / 8) * growth k * (growth 3 - 1) := by
        refine mul_le_mul_of_nonneg_left ?_ (mul_nonneg (add_nonneg near.close.most_nonneg (by norm_num)) (growth_nonneg k))
        rw [mul_one_div] at three
        exact three

end Near

-- A fold whose steps take a known number of roundings each.
theorem near_foldl {β : Type} {step : Single → β → Single} {amount : β → ℚ} {cost : Nat} {xs : List β}
    (steps : ∀ b ∈ xs, ∀ {x : Single} {a m : ℚ} {k : Nat}, Near k m x a → 1 ≤ k → (m + |amount b|) * growth (k + cost) ≤ 2 ^ 126 →
      Near (k + cost) (m + |amount b|) (step x b) (a + amount b)) (start : Near k m x a) (deep : 1 ≤ k)
    (within : (m + (xs.map fun b => |amount b|).sum) * growth (k + xs.length * cost) ≤ 2 ^ 126) :
    Near (k + xs.length * cost) (m + (xs.map fun b => |amount b|).sum) (xs.foldl step x) (a + (xs.map amount).sum) := by
  induction xs generalizing x a k m with
  | nil => simpa using start
  | cons b rest ih =>
      simp only [List.map_cons,List.sum_cons,List.length_cons,List.foldl_cons] at within ⊢
      have others : 0 ≤ (rest.map fun b => |amount b|).sum := List.sum_nonneg (by simp)
      have nonneg := start.close.most_nonneg
      have cost' : k + cost + rest.length * cost = k + (rest.length + 1) * cost := by ring
      have sooner : (m + |amount b|) * growth (k + cost) ≤ 2 ^ 126 := by
        refine (mul_growth_le (add_nonneg nonneg (abs_nonneg _)) (by linarith) ?_).trans within
        rw [← cost']
        exact Nat.le_add_right ..
      have one := steps b List.mem_cons_self start deep sooner
      have whole := ih (fun b member => steps b (List.mem_cons_of_mem _ member)) one (by omega) (by rwa [cost',add_assoc])
      rwa [cost',add_assoc,add_assoc] at whole

end Single
end BoxLayout
