import BoxLayout.Proofs.Forest.Subtree
import BoxLayout.Proofs.Layout.Passes

namespace BoxLayout.Forest

-- What a layout writes back: every control of the subtree holds the box laid out
-- for it, and nothing else changes.

variable {f g : Forest} {key top : Key} {around : Option Surround}

theorem box_writeBack_other {keys : List Key} (boxes : List Box) (elsewhere : key ∉ keys) (present : ∀ key ∈ keys, f.Contains key) :
    (f.writeBack keys boxes).box key = f.box key := by
  induction keys generalizing f boxes with
  | nil => rfl
  | cons first rest ih =>
      cases boxes with
      | nil => rfl
      | cons b boxes =>
          obtain ⟨notFirst,notLater⟩ := not_or.mp (List.mem_cons.not.mp elsewhere)
          have written := sameLinks_editBox f first fun _ => b
          have later := ih (f := f.editBox first fun _ => b) boxes notLater fun other member =>
            (written.contains_iff other).mpr (present other (List.mem_cons_of_mem _ member))
          refine later.trans ?_
          rw [box_editBox _ _ _ _ (present first List.mem_cons_self),if_neg (Ne.symm notFirst)]

theorem box_writeBack {keys : List Key} {boxes : List Box} {b : Box} (distinct : keys.Nodup)
    (present : ∀ key ∈ keys, f.Contains key) (row : (key,b) ∈ keys.zip boxes) : (f.writeBack keys boxes).box key = b := by
  induction keys generalizing f boxes with
  | nil => cases row
  | cons first rest ih =>
      cases boxes with
      | nil => cases row
      | cons b' boxes =>
          obtain ⟨notLater,distinct⟩ := List.nodup_cons.mp distinct
          have written := sameLinks_editBox f first fun _ => b'
          have allPresent : ∀ key ∈ rest, (f.editBox first fun _ => b').Contains key := fun other member =>
            (written.contains_iff other).mpr (present other (List.mem_cons_of_mem _ member))
          rcases List.mem_cons.mp row with here | later
          · cases here
            refine (box_writeBack_other (f := f.editBox key fun _ => b) boxes notLater allPresent).trans ?_
            rw [box_editBox _ _ _ _ (present key List.mem_cons_self),if_pos rfl]
          · exact ih (f := f.editBox first fun _ => b') distinct allPresent later

theorem box_writeBack_cases (f : Forest) (keys : List Key) (boxes : List Box) (key : Key) :
    (f.writeBack keys boxes).box key = f.box key ∨ (key,(f.writeBack keys boxes).box key) ∈ keys.zip boxes := by
  unfold writeBack
  generalize keys.zip boxes = rows
  induction rows generalizing f with
  | nil => exact .inl rfl
  | cons row rest ih =>
      rw [List.foldl_cons]
      rcases ih (f.editBox row.1 fun _ => row.2) with kept | written
      · rw [kept]
        rcases box_editBox_cases f row.1 key fun _ => row.2 with kept | ⟨rfl,written⟩
        · exact .inl kept
        · rw [written]
          exact .inr List.mem_cons_self
      · exact .inr (List.mem_cons_of_mem _ written)

theorem tag_writeBack (f : Forest) (keys : List Key) (boxes : List Box) : (f.writeBack keys boxes).tag key = f.tag key := by
  unfold writeBack
  generalize keys.zip boxes = rows
  induction rows generalizing f with
  | nil => rfl
  | cons row rest ih => exact (ih _).trans (tag_editBox ..)

theorem controls_eq (same : SameLinks f g) (tag : g.tag key = f.tag key) (box : g.box key = f.box key) :
    g.controls[key.index]? = f.controls[key.index]? := by
  by_cases present : f.Contains key
  · obtain ⟨old,found⟩ := controls_of_contains present
    obtain ⟨new,found'⟩ := controls_of_contains ((same.contains_iff key).mpr present)
    have own := same.keyOf_eq key
    have links := same.links_eq key
    simp only [keyOf,Forest.links,Forest.tag,Forest.box,found,found',Option.map_some,Option.some.injEq]
      at own links tag box
    rw [found,found']
    cases new
    cases old
    simp_all
  · have missing : ¬g.Contains key := fun inside => present ((same.contains_iff key).mp inside)
    rw [controls_of_missing present,controls_of_missing missing]

theorem find_eq (same : SameLinks f g) (tag : g.tag key = f.tag key) (box : g.box key = f.box key) : g.find key = f.find key := by
  unfold find
  rw [controls_eq same tag box]

theorem eq_of_boxes (same : SameLinks f g) (tags : ∀ key, g.tag key = f.tag key) (boxes : ∀ key, g.box key = f.box key) :
    g = f := eq_of_controls fun key => controls_eq same (tags key) (boxes key)

theorem SameLinks.outlineTo_eq (same : SameLinks f g) (fuel : Nat) (key : Key) : g.outlineTo fuel key = f.outlineTo fuel key := by
  induction fuel generalizing key with
  | zero => rfl
  | succ fuel ih =>
      unfold outlineTo
      rw [same.children_eq key,List.map_congr_left fun other _ => ih other]

theorem SameLinks.outline_eq (same : SameLinks f g) (key : Key) : g.outline key = f.outline key := by
  unfold outline
  rw [same.size_eq,same.outlineTo_eq]

theorem Linked.contains_outline (linked : f.Linked) (present : f.Contains top) (acyclic : f.Acyclic top) :
    ∀ key ∈ (f.outline top).preorder, f.Contains key := by
  intro key member
  exact ((linked.mem_outline present acyclic).mp member).contains present

theorem boxesAt_writeBack (linked : f.Linked) (present : f.Contains top) (acyclic : f.Acyclic top) {t : Tree Box}
    (shape : Tree.Related (fun _ _ => True) (f.boxesAt (f.outline top)) t) :
    (f.writeBack (f.outline top).preorder t.preorder).boxesAt (f.outline top) = t := by
  have outlines := outlines_outline linked present acyclic
  have distinct := outlines.nodup_preorder linked (by rwa [value_outline])
  have allPresent := linked.contains_outline present acyclic
  have outline : Tree.Related (fun _ _ => True) (f.outline top) (f.boxesAt (f.outline top)) := by
    rw [← Tree.map_id (f.outline top),boxesAt,Tree.map_map]
    exact Tree.Related.maps.mpr fun _ _ => trivial
  have written : Tree.Related (fun _ _ => True) (f.outline top) t :=
    outline.trans shape fun _ _ _ _ _ => trivial
  exact (written.of_rows fun row member => box_writeBack distinct allPresent member).map_eq

theorem boxesAt_layOutAt (linked : f.Linked) (present : f.Contains top) (acyclic : f.Acyclic top) (around : Option Surround) :
    (f.layOutAt around top).boxesAt (f.outline top) = (f.boxesAt (f.outline top)).layOut around :=
  boxesAt_writeBack linked present acyclic ((Tree.layOut_keeps _ around).imp fun _ _ _ => trivial)

theorem layOutAt_kept (linked : f.Linked) (present : f.Contains top) (acyclic : f.Acyclic top) (around : Option Surround)
    (inside : f.Within top key) : Box.SameKept (f.box key) ((f.layOutAt around top).box key) := by
  have kept := Tree.layOut_keeps (f.boxesAt (f.outline top)) around
  rw [← boxesAt_layOutAt linked present acyclic] at kept
  exact Tree.Related.maps.mp kept key ((linked.mem_outline present acyclic).mpr inside)

theorem box_layOutAt_outside (linked : f.Linked) (present : f.Contains top) (acyclic : f.Acyclic top)
    (around : Option Surround) (outside : ¬f.Within top key) : (f.layOutAt around top).box key = f.box key := by
  apply box_writeBack_other
  · intro member
    exact outside ((linked.mem_outline present acyclic).mp member)
  · exact linked.contains_outline present acyclic

theorem boxesAt_update (linked : f.Linked) :
    f.update.boxesAt (f.outline .root) = (f.boxesAt (f.outline .root)).layOut none :=
  boxesAt_layOutAt linked (contains_root linked) (acyclic_root linked) none

theorem box_update_outside (linked : f.Linked) (outside : ¬f.Attached key) : f.update.box key = f.box key :=
  box_layOutAt_outside linked (contains_root linked) (acyclic_root linked) none outside

theorem tag_layOutAt (f : Forest) (around : Option Surround) (top : Key) : (f.layOutAt around top).tag key = f.tag key :=
  tag_writeBack ..

-- Whether the walk was cut short or not, the inputs stay.
theorem box_layOutAt_kept (f : Forest) (around : Option Surround) (top key : Key) :
    Box.SameKept (f.box key) ((f.layOutAt around top).box key) := by
  have rows := (Tree.layOut_keeps (f.boxesAt (f.outline top)) around).preorder
  rw [boxesAt,Tree.preorder_map,List.forall₂_map_left_iff,List.forall₂_iff_zip] at rows
  rcases box_writeBack_cases f (f.outline top).preorder ((f.boxesAt (f.outline top)).layOut around).preorder key
    with kept | written
  · unfold layOutAt
    rw [kept]
    exact .refl _
  · exact rows.2 written

end BoxLayout.Forest
