import BoxLayout.Layout.Placement
import BoxLayout.Proofs.Layout.Split

namespace BoxLayout

-- Across its runs a wrapping container is sized by one loop and placed by another. Both cut
-- the children at the same places, and the second takes for each run what the first found.

theorem total_zero (values : List Single) : total (0 :: values) = total values := rfl

namespace Box
variable {axis : Axis}

def runWidths (axis : Axis) (children : List Box) : List Single :=
  (splitBefore opensRun (children.filter fun b => !b.flags.floating)).map fun run => largest (run.map (·.outerExtent axis))

def floatingReach (axis : Axis) (children : List Box) : Single :=
  largest ((children.filter (·.flags.floating)).map (·.reach axis))

def runNeeds (axis : Axis) (children : List Box) : List Single := (splitBefore opensRun children).map (runNeed axis)

theorem wrappedOverlaidNeed_eq (axis : Axis) (children : List Box) :
    wrappedOverlaidNeed axis children = max (total (runWidths axis children)) (floatingReach axis children) := rfl

-- A first run of floating children alone needs nothing; the others are the same.
theorem runNeeds_eq (axis : Axis) (children : List Box) : ∃ lead, (lead = [] ∨ lead = [0]) ∧
    runNeeds axis children = lead ++ runWidths axis children := by
  have opening : ∀ b : Box, opensRun b = true → (!b.flags.floating) = true := by
    intro b opens
    exact (Bool.and_eq_true_iff.mp (Bool.and_eq_true_iff.mp opens).1).1
  obtain ⟨lead,short,_,parts⟩ := splitBefore_filter opening children
  have needs : runNeeds axis children = ((splitBefore opensRun children).map (List.filter fun b => !b.flags.floating)).map
      fun run => largest (run.map (·.outerExtent axis)) := by
    rw [List.map_map]
    rfl
  rw [needs,parts,List.map_append]
  rcases short with rfl | rfl
  · exact ⟨[],.inl rfl,rfl⟩
  · exact ⟨[0],.inr rfl,rfl⟩

theorem total_runNeeds (axis : Axis) (children : List Box) : total (runNeeds axis children) = total (runWidths axis children) := by
  obtain ⟨lead,rfl | rfl,needs⟩ := runNeeds_eq axis children
  · rw [needs,List.nil_append]
  · rw [needs,List.singleton_append,total_zero]

def sideBySide : Single → List Single → List Span
  | _,[] => []
  | offset,need :: needs => ⟨offset,need⟩ :: sideBySide (offset + need) needs

theorem squeezeRuns_eq (axis : Axis) (constrained : Bool) (offset : Single) (runs : List (List Box)) :
    squeezeRuns axis constrained offset runs = (List.zipWith (fun span run => squeezeChildren axis span constrained run)
      (sideBySide offset (runs.map (runNeed axis))) runs).flatten := by
  induction runs generalizing offset with
  | nil => rfl
  | cons run rest ih =>
      rw [squeezeRuns,ih]
      rfl

end Box
end BoxLayout
