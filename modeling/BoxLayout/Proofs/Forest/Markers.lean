import BoxLayout.Proofs.Forest.Coherent
import BoxLayout.Proofs.Layout.Asked
import BoxLayout.Proofs.Snapshot.Accepted

namespace BoxLayout

-- The words of a control against the sizes they tell of.

namespace LayoutFlags

theorem getLsbD_fixed (flags : LayoutFlags) (axis : Axis) :
    flags.toWord.getLsbD (4 + 2 * axis.index) = flags.fixed.get axis := by
  have read := congrArg LayoutFlags.fixed (ofWord_toWord flags)
  cases axis with
  | x => exact congrArg PerAxis.x read
  | y => exact congrArg PerAxis.y read

theorem getLsbD_isBreak (flags : LayoutFlags) : flags.toWord.getLsbD 9 = flags.isBreak :=
  congrArg LayoutFlags.isBreak (ofWord_toWord flags)

theorem withMarkersOf_internal (flags old : LayoutFlags) :
    (flags.withMarkersOf old).toWord &&& internalWord = old.toWord &&& internalWord := by
  apply BitVec.eq_of_getLsbD_eq
  intro i bounded
  rw [BitVec.getLsbD_and,BitVec.getLsbD_and,getLsbD_internalWord i bounded]
  by_cases width : i = 4
  · subst i
    have one := (getLsbD_fixed (flags.withMarkersOf old) .x).trans (getLsbD_fixed old .x).symm
    exact congrArg (· && true) one
  by_cases height : i = 6
  · subst i
    have one := (getLsbD_fixed (flags.withMarkersOf old) .y).trans (getLsbD_fixed old .y).symm
    exact congrArg (· && true) one
  by_cases broke : i = 9
  · subst i
    have one := (getLsbD_isBreak (flags.withMarkersOf old)).trans (getLsbD_isBreak old).symm
    exact congrArg (· && true) one
  simp [width,height,broke]

end LayoutFlags

namespace ContainerFlags

theorem getLsbD_row (flags : ContainerFlags) : flags.toWord.getLsbD 0 = flags.row :=
  congrArg ContainerFlags.row (ofWord_toWord flags)

theorem getLsbD_column (flags : ContainerFlags) : flags.toWord.getLsbD 1 = flags.column :=
  congrArg ContainerFlags.column (ofWord_toWord flags)

end ContainerFlags

-- A container word is empty or names one of the two directions; the fixed bit of an axis
-- is set where the fixed size is positive, and the fixed size is -1 where it is not.
structure Box.Mirrored (b : Box) : Prop where
  container : b.container.toWord = 0 ∨ b.container.toWord.getLsbD 0 ≠ b.container.toWord.getLsbD 1
  fixed : ∀ axis, b.flags.toWord.getLsbD (4 + 2 * axis.index) = true ↔ 0 < b.fixedSize.get axis
  unfixed : ∀ axis, ¬0 < b.fixedSize.get axis → b.fixedSize.get axis = -1

namespace Box.Coherent
variable {b : Box} (coherent : b.Coherent)
include coherent

theorem fixed_get (axis : Axis) : b.flags.fixed.get axis = decide (0 < b.fixedSize.get axis) := by
  rw [coherent.fixed]
  cases axis <;> rfl

theorem mirrored : b.Mirrored where
  container := by
    rcases coherent.container with empty | directed
    · rw [empty]
      exact .inl (ContainerFlags.toWord_ofWord 0)
    · rw [ContainerFlags.getLsbD_row,ContainerFlags.getLsbD_column]
      exact .inr directed
  fixed axis := by
    rw [LayoutFlags.getLsbD_fixed,coherent.fixed_get,decide_eq_true_eq]
  unfixed axis flexible := by
    have kept : Forest.fixedAt (b.fixedSize.get axis) = b.fixedSize.get axis := by
      conv => rhs; rw [← coherent.fixedSize]
      cases axis <;> rfl
    rw [← kept,Forest.fixedAt,if_neg flexible]
    rfl

end Box.Coherent

namespace Forest
variable {start : Forest}

-- After any calls, from a new forest or one out of a file: the words of every control tell
-- what its sizes are; no caller's word touches a marker; and wherever a layout asks of a
-- box whether it is fixed, the marker and the fixed size answer alike.
theorem markers_agree (origin : start = .new ∨ ∃ s : Snapshot, s.restore = .ok start) (commands : List Command) :
    (∀ key, ((commands.foldl perform start).box key).Mirrored) ∧
      (∀ key word g, (commands.foldl perform start).setLayoutFlags key (.ofWord word) = .ok g → ∀ other,
        (g.box other).flags.toWord &&& LayoutFlags.internalWord =
          ((commands.foldl perform start).box other).flags.toWord &&& LayoutFlags.internalWord) ∧
      ∀ around top, ∀ asked ∈ (((commands.foldl perform start).boxesAt
          ((commands.foldl perform start).outline top)).layOutAsked around),
        asked.2.flags.fixed.get asked.1 = decide (0 < asked.2.fixedSize.get asked.1) := by
  have begun : start.Reachable := by
    rcases origin with rfl | ⟨s,done⟩
    · exact .new
    · exact s.restore_leads start done
  have coherent := (begun.performs commands).coherent
  refine ⟨fun key => (coherent key).mirrored,?_,?_⟩
  · intro key word g done other
    obtain ⟨_,rfl⟩ := modifyBox_ok done
    rcases box_editBox_cases (commands.foldl perform start) key other
        fun b => { b with flags := (LayoutFlags.ofWord word).withMarkersOf b.flags } with same | ⟨_,changed⟩
    · rw [same]
    · rw [changed]
      exact LayoutFlags.withMarkersOf_internal _ _
  · intro around top asked member
    refine (Tree.of_mem_layOutAsked (P := Box.Coherent) (fun same all => all.of_inputs same.inputs) ?_ member).fixed_get _
    intro b listed
    rw [boxesAt,Tree.preorder_map] at listed
    obtain ⟨key,_,rfl⟩ := List.mem_map.mp listed
    exact coherent key

def markedRow : Snapshot where
  version := 1
  nodes :=
    [{ Node.plain 0 with containerFlags := 1 },
      { Node.plain 1 with parent := 0, layoutFlags := 0x240, fixedSize := ⟨40,-7⟩ }]

def remarked : List Command := [.setLayoutFlags ⟨1⟩ (.ofWord 0xFFFFFFFF),.update]

def marked : Forest := match markedRow.restore with
  | .ok f => remarked.foldl perform f
  | .error _ => .new

theorem markers_agree_markedRow : ∃ f, markedRow.restore = .ok f ∧ marked = remarked.foldl perform f ∧
    (marked.box ⟨1⟩).flags.toWord.getLsbD 4 = true ∧ ¬(marked.box ⟨1⟩).flags.toWord.getLsbD 6 = true ∧
      (marked.box ⟨1⟩).fixedSize.get .y = -1 := by
  obtain ⟨f,done⟩ : ∃ f, markedRow.restore = .ok f := ⟨_,rfl⟩
  have same : marked = remarked.foldl perform f := by rw [marked,done]
  have mirrored := (markers_agree (.inr ⟨markedRow,done⟩) remarked).1 ⟨1⟩
  rw [← same] at mirrored
  have across : 0 < (marked.box ⟨1⟩).fixedSize.get .x := by decide +kernel
  have down : ¬0 < (marked.box ⟨1⟩).fixedSize.get .y := by decide +kernel
  exact ⟨f,done,same,(mirrored.fixed .x).mpr across,down ∘ (mirrored.fixed .y).mp,mirrored.unfixed .y down⟩

end Forest
end BoxLayout
