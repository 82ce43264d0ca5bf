import Mathlib.Algebra.Order.Ring.Int
import Mathlib.Tactic.LinearCombination
import Mathlib.Tactic.Linarith
import Mathlib.Tactic.Ring

namespace BoxLayout.Number

-- The fractions with few digits in a narrow range, found between two neighbours: of all
-- that lie between them the one that adds them up has the least numbers.

structure Fraction where
  top : Nat
  bottom : Nat
  deriving DecidableEq

namespace Fraction
variable {f g left right : Fraction}

instance : LT Fraction := ⟨fun f g => f.top * g.bottom < g.top * f.bottom⟩

instance (f g : Fraction) : Decidable (f < g) := inferInstanceAs (Decidable (f.top * g.bottom < g.top * f.bottom))

def past (f g : Fraction) (steps : Nat) : Fraction := ⟨f.top + steps * g.top,f.bottom + steps * g.bottom⟩

def mediant (f g : Fraction) : Fraction := ⟨f.top + g.top,f.bottom + g.bottom⟩

def times (f : Fraction) (k : Nat) : Fraction := ⟨k * f.top,k * f.bottom⟩

def Adjacent (left right : Fraction) : Prop := left.bottom * right.top = left.top * right.bottom + 1

theorem Adjacent.past_left (adjacent : Adjacent left right) (steps : Nat) : Adjacent (left.past right steps) right := by
  unfold Adjacent past at *
  linear_combination adjacent

theorem Adjacent.past_right (adjacent : Adjacent left right) (steps : Nat) : Adjacent left (right.past left steps) := by
  unfold Adjacent past at *
  linear_combination adjacent

theorem Adjacent.mediant (adjacent : Adjacent left right) :
    Adjacent left (left.mediant right) ∧ Adjacent (left.mediant right) right := by
  unfold Adjacent Fraction.mediant at *
  constructor <;> linear_combination adjacent

theorem Adjacent.between (adjacent : Adjacent left right) (low : left < f) (high : f < right) :
    left.top + right.top ≤ f.top ∧ left.bottom + right.bottom ≤ f.bottom := by
  obtain ⟨s,first⟩ := Nat.exists_eq_add_of_lt low
  obtain ⟨t,second⟩ := Nat.exists_eq_add_of_lt high
  have bottom : f.bottom = left.bottom * (t + 1) + right.bottom * (s + 1) := by
    unfold Adjacent at adjacent
    zify at *
    linear_combination (-f.bottom : ℤ) * adjacent + left.bottom * second + right.bottom * first
  have top : f.top = left.top * (t + 1) + right.top * (s + 1) := by
    unfold Adjacent at adjacent
    zify at *
    linear_combination (-f.top : ℤ) * adjacent + left.top * second + right.top * first
  constructor
  · rw [top]
    exact Nat.add_le_add (Nat.le_mul_of_pos_right _ t.succ_pos) (Nat.le_mul_of_pos_right _ s.succ_pos)
  · rw [bottom]
    exact Nat.add_le_add (Nat.le_mul_of_pos_right _ t.succ_pos) (Nat.le_mul_of_pos_right _ s.succ_pos)

theorem Adjacent.eq_times (adjacent : Adjacent left g) (equal : f.top * g.bottom = g.top * f.bottom) : ∃ k, f = g.times k := by
  have some : 0 < g.top := by
    refine Nat.pos_of_ne_zero fun none => ?_
    rw [Adjacent,none] at adjacent
    omega
  have product : ∃ k : Int, (f.top : Int) = k * g.top ∧ (f.bottom : Int) = k * g.bottom := by
    unfold Adjacent at adjacent
    zify at adjacent equal
    refine ⟨left.bottom * f.top - left.top * f.bottom,?_,?_⟩
    · linear_combination (-f.top : Int) * adjacent - left.top * equal
    · linear_combination (-f.bottom : Int) * adjacent - left.bottom * equal
  obtain ⟨k,top,bottom⟩ := product
  have nonneg : 0 ≤ k := by
    by_contra negative
    have less : k * g.top < 0 := Int.mul_neg_of_neg_of_pos (Int.not_le.mp negative) (by exact_mod_cast some)
    omega
  obtain ⟨k,rfl⟩ := Int.eq_ofNat_of_zero_le nonneg
  refine ⟨k,?_⟩
  obtain ⟨top',bottom'⟩ := f
  rw [times,Fraction.mk.injEq]
  exact ⟨by exact_mod_cast top,by exact_mod_cast bottom⟩

end Fraction

structure Window where
  scale : Nat
  low : Nat
  high : Nat
  mostTop : Nat
  mostBottom : Nat

namespace Window
variable {w : Window} {f left right : Fraction} {accept : Fraction → Bool}

def Below (w : Window) (f : Fraction) : Prop := f.top * w.scale < f.bottom * w.low
def Above (w : Window) (f : Fraction) : Prop := f.bottom * w.high < f.top * w.scale
def Exceeds (w : Window) (f : Fraction) : Prop := w.mostTop < f.top ∨ w.mostBottom < f.bottom

instance (w : Window) (f : Fraction) : Decidable (w.Below f) := inferInstanceAs (Decidable (_ < _))
instance (w : Window) (f : Fraction) : Decidable (w.Above f) := inferInstanceAs (Decidable (_ < _))
instance (w : Window) (f : Fraction) : Decidable (w.Exceeds f) := inferInstanceAs (Decidable (_ ∨ _))

-- The lower neighbour moved towards the upper one as often as it stays below the window,
-- and the upper towards the lower.
def climb (w : Window) (left right : Fraction) : Fraction :=
  let steps := (left.bottom * w.low - left.top * w.scale - 1) / (right.top * w.scale - right.bottom * w.low)
  let next := left.past right steps
  if w.Below next then next else left

def descend (w : Window) (left right : Fraction) : Fraction :=
  let steps := (right.top * w.scale - right.bottom * w.high - 1) / (left.bottom * w.high - left.top * w.scale)
  let next := right.past left steps
  if w.Above next then next else right

def accepts (w : Window) (accept : Fraction → Bool) : Nat → Fraction → Fraction → Bool
  | 0,_,_ => false
  | fuel + 1,left,right =>
      let left := w.climb left right
      let right := w.descend left right
      let middle := left.mediant right
      if w.Exceeds middle then true
      else if w.Below middle then accepts w accept fuel middle right
      else if w.Above middle then accepts w accept fuel left middle
      else accept middle && accepts w accept fuel left middle && accepts w accept fuel middle right

structure Holds (w : Window) (f : Fraction) : Prop where
  some : 0 < f.bottom
  low : ¬w.Below f
  high : ¬w.Above f
  few : ¬w.Exceeds f

theorem Holds.lt_of_below (holds : w.Holds f) (below : w.Below left) : left < f := by
  refine Nat.lt_of_mul_lt_mul_right (?_ : _ * w.scale < _ * w.scale)
  calc left.top * f.bottom * w.scale = left.top * w.scale * f.bottom := Nat.mul_right_comm ..
    _ < left.bottom * w.low * f.bottom := Nat.mul_lt_mul_of_pos_right below holds.some
    _ = left.bottom * (f.bottom * w.low) := by rw [Nat.mul_assoc,Nat.mul_comm w.low]
    _ ≤ left.bottom * (f.top * w.scale) := Nat.mul_le_mul_left _ (Nat.le_of_not_lt holds.low)
    _ = f.top * left.bottom * w.scale := by rw [← Nat.mul_assoc,Nat.mul_comm left.bottom]

theorem Holds.lt_of_above (holds : w.Holds f) (above : w.Above right) : f < right := by
  refine Nat.lt_of_mul_lt_mul_right (?_ : _ * w.scale < _ * w.scale)
  calc f.top * right.bottom * w.scale = f.top * w.scale * right.bottom := Nat.mul_right_comm ..
    _ ≤ f.bottom * w.high * right.bottom := Nat.mul_le_mul_right _ (Nat.le_of_not_lt holds.high)
    _ = f.bottom * (right.bottom * w.high) := by rw [Nat.mul_assoc,Nat.mul_comm w.high]
    _ < f.bottom * (right.top * w.scale) := Nat.mul_lt_mul_of_pos_left above holds.some
    _ = right.top * f.bottom * w.scale := by rw [← Nat.mul_assoc,Nat.mul_comm f.bottom]

theorem Holds.climb (holds : w.Holds f) (adjacent : left.Adjacent right) (low : left < f) :
    (w.climb left right).Adjacent right ∧ w.climb left right < f := by
  unfold Window.climb
  dsimp only
  split
  · rename_i below
    exact ⟨adjacent.past_left _,holds.lt_of_below below⟩
  · exact ⟨adjacent,low⟩

theorem Holds.descend (holds : w.Holds f) (adjacent : left.Adjacent right) (high : f < right) :
    left.Adjacent (w.descend left right) ∧ f < w.descend left right := by
  unfold Window.descend
  dsimp only
  split
  · rename_i above
    exact ⟨adjacent.past_right _,holds.lt_of_above above⟩
  · exact ⟨adjacent,high⟩

-- Induction on the fuel; the two neighbours always have the fraction between them.
theorem exists_accepted {fuel : Nat} (accepted : w.accepts accept fuel left right = true) (holds : w.Holds f)
    (adjacent : left.Adjacent right) (low : left < f) (high : f < right) : ∃ g k, accept g = true ∧ f = g.times k := by
  induction fuel generalizing left right with
  | zero => cases accepted
  | succ fuel ih =>
      obtain ⟨adjacent,low⟩ := holds.climb adjacent low
      rw [accepts] at accepted
      generalize w.climb left right = left' at *
      obtain ⟨adjacent,high⟩ := holds.descend adjacent high
      generalize w.descend left' right = right' at *
      have least := adjacent.between low high
      obtain ⟨lower,upper⟩ := adjacent.mediant
      split at accepted
      · rename_i exceeds
        exact absurd (exceeds.imp (Nat.lt_of_lt_of_le · least.1) (Nat.lt_of_lt_of_le · least.2)) holds.few
      split at accepted
      · rename_i below
        exact ih accepted upper (holds.lt_of_below below) high
      split at accepted
      · rename_i above
        exact ih accepted lower low (holds.lt_of_above above)
      · simp only [Bool.and_eq_true] at accepted
        obtain ⟨⟨here,left⟩,right⟩ := accepted
        rcases Nat.lt_trichotomy (f.top * (left'.mediant right').bottom) ((left'.mediant right').top * f.bottom) with less | equal | more
        · exact ih left lower low less
        · obtain ⟨k,multiple⟩ := lower.eq_times equal
          exact ⟨_,k,here,multiple⟩
        · exact ih right upper more high

end Window
end BoxLayout.Number
