import BoxLayout.Number.Single

namespace BoxLayout

-- Lists cut into consecutive runs, and sums and maxima over them.

-- Cut before each element that starts a run. The first element never cuts, so no
-- run is empty.
def splitBefore {α : Type} (starts : α → Bool) : List α → List (List α)
  | [] => []
  | first :: rest =>
      match splitBefore starts rest with
      | (next :: run) :: runs =>
          if starts next then [first] :: (next :: run) :: runs else (first :: next :: run) :: runs
      | _ => [[first]]

def total (values : List Single) : Single := values.foldl (· + ·) 0

def largest (values : List Single) : Single := values.foldl max 0

theorem splitBefore_shape {α : Type} (starts : α → Bool) (xs : List α) :
    (splitBefore starts xs = [] ↔ xs = []) ∧ ∀ run ∈ splitBefore starts xs, run ≠ [] := by
  induction xs with
  | nil => simp [splitBefore]
  | cons first rest ih =>
      unfold splitBefore
      split
      · rename_i found
        have inner := ih.2
        rw [found] at inner
        split <;> simp_all
      · simp

theorem flatten_splitBefore {α : Type} (starts : α → Bool) (xs : List α) :
    (splitBefore starts xs).flatten = xs := by
  induction xs with
  | nil => rfl
  | cons first rest ih =>
      have shape := splitBefore_shape starts rest
      unfold splitBefore
      split
      · rename_i found
        rw [found] at ih
        split <;> simpa using ih
      · rename_i missing
        cases runs : splitBefore starts rest with
        | nil => simp [shape.1.mp runs]
        | cons run others =>
            cases run with
            | nil => exact absurd rfl (shape.2 [] (by simp [runs]))
            | cons next tail => exact absurd runs (missing _ _ _)

end BoxLayout
