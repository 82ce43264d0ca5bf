import BoxLayout.Proofs.Snapshot.Attached

namespace BoxLayout.Forest

-- Which insertions are refused, and with what error.

variable {f : Forest} {parent child anchor : Key}

theorem checkInsertable_eq (f : Forest) (child : Key) : f.checkInsertable child =
    if ¬f.Contains child then .error (.invalidKey child)
    else if child = .root then .error .rootInsertion
    else if (f.links child).parent ≠ none then .error (.alreadyParented child)
    else .ok () := by
  by_cases present : f.Contains child
  · obtain ⟨control,found⟩ := controls_of_contains present
    have links : f.links child = control.links := by simp only [links,found]
    have find : f.find child = .ok control := by simp only [Forest.find,found]
    rw [if_neg (not_not_intro present),links]
    unfold checkInsertable
    rw [find,Result.ok_bind]
    dsimp only
    cases control.links.parent <;> rfl
  · rw [if_pos present]
    unfold checkInsertable Forest.find
    rw [controls_of_missing present]
    rfl

theorem checkAnchor_child (linked : f.Linked) (member : anchor ∈ f.children parent) :
    f.checkAnchor anchor child = (f.checkInsertable child).map fun _ => parent := by
  have under := linked.mem_children.mp member
  cases insertable : f.checkInsertable child with
  | error e =>
      unfold checkAnchor
      rw [validate_of_contains (contains_of_parent under),Result.ok_bind,insertable]
      rfl
  | ok _ =>
      refine checkAnchor_of (contains_of_parent under) insertable ?_ under
      rintro rfl
      rw [(checkInsertable_ok insertable).2.2] at under
      cases under

theorem insertAtEnd_eq (linked : f.Linked) (parent child : Key) : f.insertAtEnd parent child = do
    let _ ← f.validate parent
    f.checkInsertable child
    if parent = child then throw (.selfInsertion child)
    return f.spliced parent (f.children parent) [] child := by
  cases found : f.validate parent with
  | error e => rw [insertAtEnd,found]; rfl
  | ok _ =>
      cases insertable : f.checkInsertable child with
      | error e => rw [insertAtEnd,found,insertable]; rfl
      | ok _ =>
          by_cases same : parent = child
          · simp only [insertAtEnd,found,insertable,Result.ok_bind,if_pos same]
            rfl
          · obtain ⟨present,notRoot,free⟩ := checkInsertable_ok insertable
            have ready : f.Appendable parent child := ⟨(validate_ok found).1,present,notRoot,free,same⟩
            simp only [(insertAtEnd_ok linked).mpr ⟨ready,rfl⟩,Result.ok_bind,if_neg same]
            rfl

theorem insertAtStart_eq (linked : f.Linked) (parent child : Key) : f.insertAtStart parent child = do
    let _ ← f.validate parent
    f.checkInsertable child
    if parent = child ∧ f.children parent = [] then throw (.selfInsertion child)
    return f.spliced parent [] (f.children parent) child := by
  unfold insertAtStart
  cases found : f.validate parent with
  | error e => rfl
  | ok _ =>
      have siblings := linked.siblings_children (validate_ok found).1
      rw [Result.ok_bind,Result.ok_bind,siblings.first_eq]
      cases listed : f.children parent with
      | nil =>
          simp only [List.head?_nil,insertAtEnd_eq linked,found,Result.ok_bind,listed,and_true]
      | cons first rest =>
          have leading : f.Siblings parent ([] ++ first :: rest) := listed ▸ siblings
          have previous : (f.links first).previousSibling = none := leading.previous_eq
          have anchored : f.checkAnchor first child = (f.checkInsertable child).map fun _ => parent :=
            checkAnchor_child linked (listed ▸ List.mem_cons_self)
          simp only [List.head?_cons,insertBefore,anchored,previous]
          cases f.checkInsertable child with
          | error e => rfl
          | ok _ =>
              simp only [reduceCtorEq,and_false,if_false]
              rfl

theorem insertAtEnd_refusals (linked : f.Linked) (parent child : Key) : f.insertAtEnd parent child =
    if ¬f.Contains parent then .error (.invalidKey parent)
    else if ¬f.Contains child then .error (.invalidKey child)
    else if child = .root then .error .rootInsertion
    else if (f.links child).parent ≠ none then .error (.alreadyParented child)
    else if parent = child then .error (.selfInsertion child)
    else .ok (f.spliced parent (f.children parent) [] child) := by
  rw [insertAtEnd_eq linked,checkInsertable_eq]
  unfold validate
  split_ifs <;> rfl

theorem appendable_create (linked : f.Linked) {parent : Key} (present : f.Contains parent) :
    f.create.2.Appendable parent f.create.1 := by
  have missing : ¬f.Contains f.create.1 := Nat.lt_irrefl f.size
  refine ⟨(contains_create f parent).mpr (.inr present),(contains_create f _).mpr (.inl rfl),?_,?_,?_⟩
  · intro root
    exact missing (root ▸ contains_root linked)
  · rw [links_create,links_of_missing missing]
    rfl
  · intro same
    exact missing (same ▸ present)

theorem children_create (linked : f.Linked) (parent : Key) : f.create.2.children parent = f.children parent := by
  by_cases present : f.Contains parent
  · exact ((linked.siblings_children present).congr (links_create f)).children_eq
  · rw [children_of_missing present]
    exact children_of_bare (by rw [links_create,links_of_missing present])

theorem spliceable_create (linked : f.Linked) {parent : Key} (present : f.Contains parent) :
    f.create.2.Spliceable parent (f.children parent) [] f.create.1 :=
  children_create linked parent ▸ (appendable_create linked present).spliceable (linked_create linked)

theorem insertAtEnd_create (linked : f.Linked) {parent : Key} (present : f.Contains parent) :
    f.create.2.insertAtEnd parent f.create.1 = .ok (f.create.2.spliced parent (f.children parent) [] f.create.1) := by
  rw [(insertAtEnd_ok (linked_create linked)).mpr ⟨appendable_create linked present,rfl⟩,children_create linked parent]

theorem createChild_eq (linked : f.Linked) (parent : Key) : f.createChild parent =
    if f.Contains parent then .ok (f.create.1,f.create.2.spliced parent (f.children parent) [] f.create.1)
    else .error (.invalidKey parent) := by
  unfold createChild validate
  split
  · rename_i present
    rw [Result.ok_bind]
    dsimp only
    rw [show f.create.2.insertAtEnd parent f.create.1 = _ from insertAtEnd_create linked present]
    rfl
  · rfl

end BoxLayout.Forest
