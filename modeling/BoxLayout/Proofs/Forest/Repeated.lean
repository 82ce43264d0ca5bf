import BoxLayout.Proofs.Forest.Written

namespace BoxLayout.Forest

-- Layouts done twice. The second finds what the first left, takes the same passes
-- and writes the same boxes.

variable {f g : Forest} {key top : Key} {around : Option Surround}

theorem value_boxesAt (f : Forest) (top : Key) : (f.boxesAt (f.outline top)).value = f.box top := by
  rw [boxesAt,Tree.value_map,value_outline]

theorem box_layOutAt_eq (linked : f.Linked) (present : f.Contains top) (acyclic : f.Acyclic top) (same : SameLinks f g)
    (kept : ∀ key, f.Within top key → Box.SameKept (f.box key) (g.box key))
    (standing : (f.box top).Held around → ∀ axis, (f.box top).start axis = (g.box top).start axis)
    (key : Key) (inside : f.Within top key) : (g.layOutAt around top).box key = (f.layOutAt around top).box key := by
  have one := boxesAt_layOutAt linked present acyclic around
  have two := boxesAt_layOutAt (same.linked linked) ((same.contains_iff top).mpr present) (same.acyclic_iff.mpr acyclic) around
  have related : Tree.Related Box.SameKept (f.boxesAt (f.outline top)) (g.boxesAt (g.outline top)) := by
    rw [same.outline_eq]
    exact Tree.Related.maps.mpr fun key member => kept key ((linked.mem_outline present acyclic).mp member)
  have held : Tree.Standing around (f.boxesAt (f.outline top)) (g.boxesAt (g.outline top)) := by
    unfold Tree.Standing
    rw [value_boxesAt,value_boxesAt]
    exact standing
  have equal := Tree.layOut_eq related held
  rw [← one,← two,same.outline_eq] at equal
  exact Tree.map_eq_map_iff.mp equal.symm key ((linked.mem_outline present acyclic).mpr inside)

theorem update_update (linked : f.Linked) : f.update.update = f.update := by
  have present := contains_root linked
  have acyclic := acyclic_root linked
  have same := sameLinks_update f
  refine eq_of_boxes (sameLinks_update _) (fun key => tag_layOutAt ..) ?_
  intro key
  by_cases inside : f.Attached key
  · exact box_layOutAt_eq linked present acyclic same (fun other inside => layOutAt_kept linked present acyclic none inside)
      (fun held => absurd rfl held.1) key inside
  · exact box_layOutAt_outside (same.linked linked) ((same.contains_iff _).mpr present) (same.acyclic_iff.mpr acyclic) none
      fun within => inside (same.within_iff.mp within)

theorem start_layOutAt (linked : f.Linked) (present : f.Contains top) (acyclic : f.Acyclic top)
    (held : (f.box top).Held around) (axis : Axis) : ((f.layOutAt around top).box top).start axis = (f.box top).start axis := by
  have same := sameLinks_layOutAt f around top
  rw [← value_boxesAt,same.outline_eq,boxesAt_layOutAt linked present acyclic,← value_boxesAt f]
  rw [← value_boxesAt] at held
  exact Tree.start_layOut _ held axis

-- The break marker of the root is the one thing written after a layout of a subtree,
-- and the next layout overwrites it anyway.
theorem layOutAt_marked (linked : f.Linked) (present : f.Contains top) (acyclic : f.Acyclic top) (mark : Bool) :
    (((f.layOutAt around top).editBox top (·.withBreak mark)).layOutAt around top).editBox top (·.withBreak mark) =
      (f.layOutAt around top).editBox top (·.withBreak mark) := by
  have laidOut := sameLinks_layOutAt f around top
  have same := laidOut.trans (sameLinks_editBox (f.layOutAt around top) top (·.withBreak mark))
  have boxes := fun key => box_editBox _ top key (·.withBreak mark) ((laidOut.contains_iff top).mpr present)
  generalize (f.layOutAt around top).editBox top (·.withBreak mark) = g at *
  have there := (same.contains_iff top).mpr present
  have again : ∀ key, (g.layOutAt around top).box key = (f.layOutAt around top).box key := by
    intro key
    by_cases inside : f.Within top key
    · refine box_layOutAt_eq linked present acyclic same ?_ ?_ key inside
      · intro other within
        rw [boxes]
        split
        · exact (layOutAt_kept linked present acyclic around within).withBreak mark
        · exact layOutAt_kept linked present acyclic around within
      · intro held axis
        rw [boxes,if_pos rfl,Box.start_withBreak]
        exact (start_layOutAt linked present acyclic held axis).symm
    · have apart : top ≠ key := fun equal => inside (equal ▸ .self)
      refine (box_layOutAt_outside (same.linked linked) there (same.acyclic_iff.mpr acyclic) around ?_).trans ?_
      · exact fun within => inside (same.within_iff.mp within)
      · rw [boxes,if_neg apart]
  have repeated := sameLinks_layOutAt g around top
  refine eq_of_boxes (repeated.trans (sameLinks_editBox _ _ _)) ?_ ?_
  · intro key
    rw [tag_editBox,tag_layOutAt]
  · intro key
    rw [box_editBox _ _ _ _ ((repeated.contains_iff top).mpr there),again,boxes]

theorem surround_congr (same : SameLinks f g)
    (above : ∀ parent, (f.links top).parent = some parent → g.box parent = f.box parent) : g.surround top = f.surround top := by
  unfold surround
  rw [same.links_eq]
  cases under : (f.links top).parent with
  | none => rfl
  | some parent => simp only [Option.map_some,above parent under]

theorem surround_eq (same : SameLinks f g) (acyclic : f.Acyclic top) (outside : ∀ key, ¬f.Within top key → g.box key = f.box key) :
    g.surround top = f.surround top :=
  surround_congr same fun parent under => outside parent fun inside => acyclic ⟨parent,under,inside⟩

theorem updateSubtree_of_contains (present : f.Contains top) : f.updateSubtree top =
    .ok ((f.layOutAt (f.surround top) top).editBox top (·.withBreak (f.box top).flags.isBreak)) := by
  unfold updateSubtree
  rw [validate_of_contains present]
  rfl

theorem updateSubtree_twice (linked : f.Linked) (present : f.Contains top) (acyclic : f.Acyclic top) :
    ∃ g, f.updateSubtree top = .ok g ∧ g.updateSubtree top = .ok g := by
  have laidOut := sameLinks_layOutAt f (f.surround top) top
  have there := (laidOut.contains_iff top).mpr present
  have boxes := fun key => box_editBox (f.layOutAt (f.surround top) top) top key
    (·.withBreak (f.box top).flags.isBreak) there
  have same := laidOut.trans (sameLinks_editBox _ top (·.withBreak (f.box top).flags.isBreak))
  refine ⟨_,updateSubtree_of_contains present,?_⟩
  rw [updateSubtree_of_contains ((same.contains_iff top).mpr present),surround_eq same acyclic,boxes top,if_pos rfl]
  · exact congrArg Except.ok (layOutAt_marked linked present acyclic _)
  · intro key outside
    have apart : top ≠ key := fun equal => outside (equal ▸ .self)
    rw [boxes key,if_neg apart,box_layOutAt_outside linked present acyclic _ outside]

end BoxLayout.Forest
