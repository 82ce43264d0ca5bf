import BoxLayout.Proofs.Forest.Repeated
import BoxLayout.Proofs.Forest.Reset
import BoxLayout.Proofs.Layout.Unwrapped

namespace BoxLayout

-- Updates of one subtree. What one writes lies inside the subtree and what it reads lies
-- there or right above, so two of them whose subtrees are apart do not see each other.

def Box.settings (b : Box) : Box :=
  { b with rect := .zero, contentSize := .both 0, flags := { b.flags with isBreak := false } }

theorem Box.settings_of_inputs {a b : Box} (same : SameInputs a b) : b.settings = a.settings := by
  obtain ⟨container,flags,margins,padding,fixedSize,minimumSize,maximumSize,floatingPosition,_⟩ := same
  simp only [settings,container,flags,margins,padding,fixedSize,minimumSize,maximumSize,floatingPosition]

namespace Forest
variable {f g : Forest} {top other key parent : Key}

def relaid (f : Forest) (top : Key) : Forest :=
  (f.layOutAt (f.surround top) top).editBox top (·.withBreak (f.box top).flags.isBreak)

theorem updateSubtree_relaid (present : f.Contains top) : f.updateSubtree top = .ok (f.relaid top) :=
  updateSubtree_of_contains present

theorem sameLinks_relaid (f : Forest) (top : Key) : SameLinks f (f.relaid top) :=
  (sameLinks_layOutAt _ _ _).trans (sameLinks_editBox _ _ _)

theorem tag_relaid (f : Forest) (top key : Key) : (f.relaid top).tag key = f.tag key :=
  (tag_editBox ..).trans (tag_layOutAt ..)

theorem box_relaid (present : f.Contains top) (key : Key) : (f.relaid top).box key =
    if top = key then ((f.layOutAt (f.surround top) top).box key).withBreak (f.box top).flags.isBreak
    else (f.layOutAt (f.surround top) top).box key :=
  box_editBox _ _ _ _ (((sameLinks_layOutAt ..).contains_iff top).mpr present)

theorem box_relaid_kept (f : Forest) (top key : Key) : Box.SameKept (f.box key) ((f.relaid top).box key) := by
  have kept := box_layOutAt_kept f (f.surround top) top key
  rcases box_editBox_cases (f.layOutAt (f.surround top) top) top key (·.withBreak (f.box top).flags.isBreak)
    with same | ⟨_,marked⟩
  · exact same ▸ kept
  · exact marked ▸ kept.withBreak _

theorem box_relaid_outside (linked : f.Linked) (present : f.Contains top) (acyclic : f.Acyclic top)
    (outside : ¬f.Within top key) : (f.relaid top).box key = f.box key := by
  have apart : top ≠ key := fun equal => outside (equal ▸ .self)
  rw [box_relaid present,if_neg apart,box_layOutAt_outside linked present acyclic _ outside]

-- All that is read: the boxes inside the subtree and the one of the parent.
theorem box_relaid_congr (linked : f.Linked) (present : f.Contains top) (acyclic : f.Acyclic top) (same : SameLinks f g)
    (below : ∀ key, f.Within top key → g.box key = f.box key)
    (above : ∀ parent, (f.links top).parent = some parent → g.box parent = f.box parent) (inside : f.Within top key) :
    (g.relaid top).box key = (f.relaid top).box key := by
  have laidOut : (g.layOutAt (f.surround top) top).box key = (f.layOutAt (f.surround top) top).box key := by
    refine box_layOutAt_eq linked present acyclic same (fun other within => ?_) (fun _ axis => ?_) key inside
    · rw [below other within]
      exact .refl _
    · rw [below top .self]
  rw [box_relaid present,box_relaid ((same.contains_iff top).mpr present),surround_congr same above,laidOut,below top .self]

theorem relaid_relaid (linked : f.Linked) (present : f.Contains top) (acyclic : f.Acyclic top)
    (present' : f.Contains other) (acyclic' : f.Acyclic other) (apart : ¬f.Within top other) (apart' : ¬f.Within other top) :
    (f.relaid other).relaid top = (f.relaid top).relaid other := by
  have one := sameLinks_relaid f top
  have two := sameLinks_relaid f other
  -- Each of the two finds what it reads as it was without the other one.
  have unread : ∀ {a b}, f.Contains a → f.Acyclic a → f.Contains b → f.Acyclic b → ¬f.Within a b → ¬f.Within b a →
      ∀ key, f.Within a key → ((f.relaid b).relaid a).box key = (f.relaid a).box key := by
    intro a b here acyclicHere there acyclicThere notBelow notAbove key inside
    refine box_relaid_congr linked here acyclicHere (sameLinks_relaid f b) ?_ ?_ inside
    · intro key inside
      refine box_relaid_outside linked there acyclicThere fun within => ?_
      exact (inside.linear within).elim notBelow notAbove
    · intro parent under
      refine box_relaid_outside linked there acyclicThere fun within => ?_
      exact notAbove (.child under within)
  have undone : ∀ {a b}, f.Contains a → f.Acyclic a → ∀ key, ¬f.Within a key →
      ((f.relaid b).relaid a).box key = (f.relaid b).box key := by
    intro a b here acyclicHere key outside
    have same := sameLinks_relaid f b
    exact box_relaid_outside (same.linked linked) ((same.contains_iff a).mpr here) (same.acyclic_iff.mpr acyclicHere)
      fun within => outside (same.within_iff.mp within)
  refine eq_of_boxes ((one.trans (sameLinks_relaid _ other)).symm.trans (two.trans (sameLinks_relaid _ top))) ?_ ?_
  · intro key
    simp only [tag_relaid]
  · intro key
    by_cases inside : f.Within top key
    · have outside : ¬f.Within other key := fun within => (inside.linear within).elim apart apart'
      rw [unread present acyclic present' acyclic' apart apart' key inside,undone present' acyclic' key outside]
    · by_cases inside' : f.Within other key
      · rw [undone present acyclic key inside,unread present' acyclic' present acyclic apart' apart key inside']
      · rw [undone present acyclic key inside,undone present' acyclic' key inside',
          box_relaid_outside linked present acyclic inside,box_relaid_outside linked present' acyclic' inside']

theorem box_relaid_root (linked : f.Linked) (present : f.Contains top) (elsewhere : top ≠ .root) :
    (f.relaid top).box .root = f.box .root := by
  rw [box_relaid present,if_neg elsewhere]
  rcases box_writeBack_cases f (f.outline top).preorder ((f.boxesAt (f.outline top)).layOut (f.surround top)).preorder .root
    with kept | written
  · exact kept
  · exact absurd (linked.within_root (within_of_mem_outlineTo linked (List.of_mem_zip written).1)) elsewhere

theorem isBreak_root_update (linked : f.Linked) : (f.update.box .root).flags.isBreak = false := by
  have laidOut := boxesAt_update linked
  have root := congrArg Tree.value laidOut
  rw [boxesAt,Tree.value_map,value_outline] at root
  exact (congrArg (·.flags.isBreak) root).trans (Tree.isBreak_root_layOut _ _)

end Forest
open Forest

theorem Box.Reset.isBreak {a b : Box} (reset : a.Reset b) (unmarked : a.flags.isBreak = false) : b.flags.isBreak = false := by
  cases reset with
  | new => rfl
  | _ => exact unmarked

theorem Command.isBreak_root {f g : Forest} (linked : f.Linked) (unmarked : (f.box .root).flags.isBreak = false)
    {command : Command} (done : command.apply f = .ok g) : (g.box .root).flags.isBreak = false := by
  by_cases lays : command.laysOut
  · cases command with
    | update =>
        cases done
        exact isBreak_root_update linked
    | updateSubtree top =>
        obtain ⟨present,rfl⟩ := updateSubtree_ok done
        by_cases own : top = .root
        · subst own
          exact (congrArg (·.flags.isBreak) ((box_relaid present .root).trans (if_pos rfl))).trans unmarked
        · exact (congrArg (·.flags.isBreak) (box_relaid_root linked present own)).trans unmarked
    | _ => cases lays
  · exact (Command.box_reset linked done (eq_false_of_ne_true lays) .root).isBreak unmarked

namespace Forest
variable {f g : Forest} {top other key : Key}

-- Nothing stands before the root, so no run ever starts with it.
theorem Reachable.isBreak_root (path : f.Reachable) : (f.box .root).flags.isBreak = false := by
  induction path with
  | new => rfl
  | step path done ih => exact Command.isBreak_root path.linked ih done

-- With nothing around it and no marker to put back, the partial layout of the root is the whole one.
theorem Reachable.relaid_root (path : f.Reachable) : f.relaid .root = f.update := by
  have linked := path.linked
  have around : f.surround .root = none := by rw [surround,linked.root_free,Option.map_none]
  have same := sameLinks_update f
  refine eq_of_boxes (same.symm.trans (sameLinks_relaid f .root)) (fun key => ?_) fun key => ?_
  · rw [tag_relaid,update,tag_layOutAt]
  · rw [box_relaid (contains_root linked),around]
    split
    · rename_i root
      subst root
      rw [path.isBreak_root]
      exact Tree.withBreak_of_clear (isBreak_root_update linked)
    · rfl

theorem updateSubtree_local (path : f.Reachable) (present : f.Contains top) (acyclic : f.Acyclic top) :
    ∃ g, f.updateSubtree top = .ok g ∧ (top = .root → g = f.update) ∧
      (∀ key, ¬f.Within top key → g.find key = f.find key) ∧
      (SameLinks f g ∧ ∀ key, g.tag key = f.tag key ∧ (g.box key).settings = (f.box key).settings) ∧
      ((g.box top).flags.isBreak = (f.box top).flags.isBreak ∧
        ((f.links top).parent ≠ none → (f.box top).flags.floating = false →
          (g.box top).rect.position = (f.box top).rect.position)) ∧
      ∀ other, f.Contains other → f.Acyclic other → ¬f.Within top other → ¬f.Within other top →
        ∃ h k, f.updateSubtree other = .ok h ∧ g.updateSubtree other = .ok k ∧ h.updateSubtree top = .ok k := by
  have linked := path.linked
  have same := sameLinks_relaid f top
  refine ⟨f.relaid top,updateSubtree_relaid present,?_,?_,⟨same,fun key => ⟨tag_relaid ..,?_⟩⟩,⟨?_,?_⟩,?_⟩
  · rintro rfl
    exact path.relaid_root
  · intro key outside
    exact find_eq same (tag_relaid ..) (box_relaid_outside linked present acyclic outside)
  · exact Box.settings_of_inputs (box_relaid_kept f top key).inputs
  · rw [box_relaid present,if_pos rfl]
    rfl
  · intro under grounded
    have held : (f.box top).Held (f.surround top) := by
      refine ⟨fun alone => under ?_,grounded⟩
      exact Option.map_eq_none_iff.mp alone
    refine PerAxis.eq_of_get fun axis => ?_
    rw [box_relaid present,if_pos rfl]
    exact start_layOutAt linked present acyclic held axis
  · intro other present' acyclic' apart apart'
    refine ⟨f.relaid other,(f.relaid top).relaid other,updateSubtree_relaid present',?_,?_⟩
    · exact updateSubtree_relaid ((same.contains_iff other).mpr present')
    · rw [← relaid_relaid linked present acyclic present' acyclic' apart apart']
      exact updateSubtree_relaid (((sameLinks_relaid f other).contains_iff top).mpr present)

def edited : Forest := after
  [.setContainerFlags .root (.ofWord 5),.setSize .root ⟨100,0⟩,.createChild .root,.setSize ⟨1⟩ ⟨60,10⟩,.createChild .root,
    .setMinimumSize ⟨2⟩ ⟨50,unset⟩,.createChild ⟨2⟩,.setSize ⟨3⟩ ⟨20,5⟩,.update,.setSize ⟨1⟩ ⟨80,15⟩,
    .setMargins ⟨2⟩ ⟨7,8,0,0⟩,.setSize ⟨3⟩ ⟨70,9⟩]

theorem updateSubtree_local_edited : edited.Reachable ∧ edited.Contains ⟨2⟩ ∧ edited.Acyclic ⟨2⟩ ∧
    (edited.links ⟨2⟩).parent ≠ none ∧ (edited.box ⟨2⟩).flags.floating = false ∧ edited.Contains ⟨1⟩ ∧
      edited.Acyclic ⟨1⟩ ∧ ¬edited.Within ⟨2⟩ ⟨1⟩ ∧ ¬edited.Within ⟨1⟩ ⟨2⟩ ∧
        ∃ g h k, edited.updateSubtree ⟨2⟩ = .ok g ∧ g.find ⟨1⟩ = edited.find ⟨1⟩ ∧ (g.box ⟨2⟩).flags.isBreak = true ∧
          (g.box ⟨2⟩).rect.position = ⟨25,10⟩ ∧ (g.box ⟨2⟩).extent .x = 70 ∧ edited.updateSubtree ⟨1⟩ = .ok h ∧
            g.updateSubtree ⟨1⟩ = .ok k ∧ h.updateSubtree ⟨2⟩ = .ok k := by
  have path : edited.Reachable := reachable_after _
  have top := acyclic_root path.linked
  have one : (edited.links ⟨1⟩).parent = some .root := by decide +kernel
  have two : (edited.links ⟨2⟩).parent = some .root := by decide +kernel
  have present : edited.Contains ⟨1⟩ := contains_of_parent one
  have present' : edited.Contains ⟨2⟩ := contains_of_parent two
  have acyclic := top.of_parent one
  have acyclic' := top.of_parent two
  have apart : ¬edited.Within ⟨2⟩ ⟨1⟩ := fun inside => absurd (Within.same_child top two one inside .self) (by decide)
  have apart' : ¬edited.Within ⟨1⟩ ⟨2⟩ := fun inside => absurd (Within.same_child top one two inside .self) (by decide)
  have under : (edited.links ⟨2⟩).parent ≠ none := by decide +kernel
  have grounded : (edited.box ⟨2⟩).flags.floating = false := by decide +kernel
  obtain ⟨g,done,_,outside,_,⟨isBreak,position⟩,commutes⟩ := updateSubtree_local path present' acyclic'
  obtain ⟨h,k,first,second,back⟩ := commutes ⟨1⟩ present acyclic apart apart'
  have width : (g.box ⟨2⟩).extent .x = 70 := by
    obtain ⟨_,rfl⟩ := updateSubtree_ok done
    decide +kernel
  exact ⟨path,present',acyclic',under,grounded,present,acyclic,apart,apart',g,h,k,done,outside _ apart,
    isBreak.trans (by decide +kernel),(position under grounded).trans (by decide +kernel),width,first,second,back⟩

end Forest
end BoxLayout
