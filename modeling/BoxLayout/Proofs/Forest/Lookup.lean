import BoxLayout.Forest.Basic

namespace BoxLayout

theorem Result.bind_ok {α β : Type} {first : Result α} {next : α → Result β} {result : β} :
    first >>= next = .ok result ↔ ∃ value, first = .ok value ∧ next value = .ok result := by
  cases first <;> simp [bind,Except.bind]

theorem Result.ok_bind {α β : Type} (value : α) (next : α → Result β) : (.ok value : Result α) >>= next = next value := rfl

namespace Forest

-- What one change at a key does to each thing that can be looked up. After this
-- nobody opens the array of controls.

def keyOf (f : Forest) (key : Key) : Option Key := f.controls[key.index]?.map Control.key

theorem eq_of_controls {f g : Forest} (same : ∀ key : Key, g.controls[key.index]? = f.controls[key.index]?) : g = f := by
  have controls : g.controls = f.controls := Array.ext_getElem? fun i => same ⟨i⟩
  cases f
  cases g
  exact congrArg Forest.mk controls

theorem controls_edit (f : Forest) (key other : Key) (change : Control → Control) :
    (f.edit key change).controls[other.index]? =
      if key = other then f.controls[other.index]?.map change else f.controls[other.index]? := by
  obtain ⟨i⟩ := key
  obtain ⟨j⟩ := other
  simp only [edit,Array.getElem?_modify,Key.mk.injEq]

theorem controls_create (f : Forest) (key : Key) :
    f.create.2.controls[key.index]? =
      if key.index = f.size then some (.new key) else f.controls[key.index]? := by
  obtain ⟨i⟩ := key
  by_cases fresh : i = f.size
  · subst i
    simp only [create,size,Array.getElem?_push,if_true]
  · have other : ¬i = f.controls.size := fresh
    simp only [create,Array.getElem?_push,other,fresh,if_false]

theorem controls_of_contains {f : Forest} {key : Key} (present : f.Contains key) :
    ∃ control, f.controls[key.index]? = some control :=
  ⟨_,Array.getElem?_eq_getElem present⟩

theorem controls_of_missing {f : Forest} {key : Key} (missing : ¬f.Contains key) :
    f.controls[key.index]? = none := Array.getElem?_eq_none (Nat.le_of_not_lt missing)

theorem mem_keys {f : Forest} {key : Key} : key ∈ f.keys ↔ f.Contains key := by
  unfold keys
  rw [List.mem_map]
  constructor
  · rintro ⟨index,listed,rfl⟩
    exact List.mem_range.mp listed
  · intro present
    exact ⟨key.index,List.mem_range.mpr present,rfl⟩

theorem contains_create (f : Forest) (key : Key) :
    f.create.2.Contains key ↔ key.index = f.size ∨ f.Contains key := by
  simp only [Contains,size_create]
  omega

theorem links_of_missing {f : Forest} {key : Key} (missing : ¬f.Contains key) : f.links key = .none := by
  simp only [links,controls_of_missing missing]

theorem contains_of_links {f : Forest} {key : Key} (linked : f.links key ≠ .none) : f.Contains key := by
  apply Decidable.byContradiction
  intro missing
  exact linked (links_of_missing missing)

theorem contains_of_parent {f : Forest} {key parent : Key} (under : (f.links key).parent = some parent) :
    f.Contains key := by
  apply contains_of_links
  intro bare
  simp [bare,Links.none] at under

theorem links_create (f : Forest) (key : Key) : f.create.2.links key = f.links key := by
  by_cases fresh : key.index = f.size
  · have missing : ¬f.Contains key := by simp only [Contains]; omega
    rw [links_of_missing missing]
    simp only [links,controls_create,if_pos fresh,Control.new]
  · simp only [links,controls_create,if_neg fresh]

theorem box_create (f : Forest) (key : Key) : f.create.2.box key = f.box key := by
  by_cases fresh : key.index = f.size
  · have missing : ¬f.Contains key := by simp only [Contains]; omega
    simp only [box,controls_create,if_pos fresh,controls_of_missing missing,Control.new]
  · simp only [box,controls_create,if_neg fresh]

theorem keyOf_create (f : Forest) (key : Key) :
    f.create.2.keyOf key = if key.index = f.size then some key else f.keyOf key := by
  simp only [keyOf,controls_create]
  split <;> rfl

theorem keyOf_edit (f : Forest) (key other : Key) (change : Control → Control)
    (kept : ∀ control, (change control).key = control.key) : (f.edit key change).keyOf other = f.keyOf other := by
  simp only [keyOf,controls_edit]
  split
  · cases f.controls[other.index]? <;> simp [kept]
  · rfl

theorem links_edit (f : Forest) (key other : Key) (change : Control → Control)
    (kept : ∀ control, (change control).links = control.links) : (f.edit key change).links other = f.links other := by
  by_cases same : key = other
  · cases found : f.controls[other.index]? <;> simp [links,controls_edit,same,found,kept]
  · simp only [links,controls_edit,if_neg same]

theorem box_edit (f : Forest) (key other : Key) (change : Control → Control)
    (kept : ∀ control, (change control).box = control.box) : (f.edit key change).box other = f.box other := by
  by_cases same : key = other
  · cases found : f.controls[other.index]? <;> simp [box,controls_edit,same,found,kept]
  · simp only [box,controls_edit,if_neg same]

theorem tag_edit (f : Forest) (key other : Key) (change : Control → Control)
    (kept : ∀ control, (change control).tag = control.tag) : (f.edit key change).tag other = f.tag other := by
  by_cases same : key = other
  · cases found : f.controls[other.index]? <;> simp [tag,controls_edit,same,found,kept]
  · simp only [tag,controls_edit,if_neg same]

theorem box_editLinks (f : Forest) (key other : Key) (change : Links → Links) : (f.editLinks key change).box other = f.box other :=
  box_edit _ _ _ _ fun _ => rfl

theorem tag_editLinks (f : Forest) (key other : Key) (change : Links → Links) : (f.editLinks key change).tag other = f.tag other :=
  tag_edit _ _ _ _ fun _ => rfl

theorem tag_editBox (f : Forest) (key other : Key) (change : Box → Box) : (f.editBox key change).tag other = f.tag other :=
  tag_edit _ _ _ _ fun _ => rfl

theorem links_editLinks (f : Forest) (key other : Key) (change : Links → Links) (present : f.Contains key) :
    (f.editLinks key change).links other = if key = other then change (f.links other) else f.links other := by
  by_cases same : key = other
  · subst other
    obtain ⟨control,found⟩ := controls_of_contains present
    simp only [links,editLinks,controls_edit,if_true,found,Option.map_some]
  · simp only [links,editLinks,controls_edit,if_neg same]

theorem size_editLinks (f : Forest) (key : Key) (change : Links → Links) : (f.editLinks key change).size = f.size :=
  size_edit ..

theorem keyOf_editLinks (f : Forest) (key other : Key) (change : Links → Links) :
    (f.editLinks key change).keyOf other = f.keyOf other := keyOf_edit _ _ _ _ fun _ => rfl

theorem box_editBox (f : Forest) (key other : Key) (change : Box → Box) (present : f.Contains key) :
    (f.editBox key change).box other = if key = other then change (f.box other) else f.box other := by
  by_cases same : key = other
  · subst other
    obtain ⟨control,found⟩ := controls_of_contains present
    simp only [box,editBox,controls_edit,if_true,found,Option.map_some]
  · simp only [box,editBox,controls_edit,if_neg same]

theorem box_editBox_cases (f : Forest) (key other : Key) (change : Box → Box) :
    (f.editBox key change).box other = f.box other ∨
      key = other ∧ (f.editBox key change).box other = change (f.box other) := by
  by_cases present : f.Contains key
  · rw [box_editBox _ _ _ _ present]
    split
    · rename_i same
      exact .inr ⟨same,rfl⟩
    · exact .inl rfl
  · left
    by_cases same : key = other
    · subst other
      have missing : ¬(f.editBox key change).Contains key := by
        simpa only [Contains,editBox,size_edit] using present
      simp only [box,controls_of_missing present,controls_of_missing missing]
    · simp only [box,editBox,controls_edit,if_neg same]

end Forest
end BoxLayout
