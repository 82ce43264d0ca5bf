import Mathlib.Data.List.Perm.Subperm
import BoxLayout.Forest.Walk
import BoxLayout.Proofs.Forest.Reachable

namespace BoxLayout.Forest

-- The lists read off the links, with as many steps as there are controls, are the
-- whole sibling lists.

variable {f g : Forest} {parent key child : Key} {keys : List Key} {start : Option Key}

theorem length_le_size (distinct : keys.Nodup) (present : ∀ key ∈ keys, f.Contains key) : keys.length ≤ f.size := by
  have indices : (keys.map Key.index).Nodup :=
    List.Nodup.map (fun one two same => by cases one; cases two; cases same; rfl) distinct
  have inside : keys.map Key.index ⊆ List.range f.size := by
    intro index member
    obtain ⟨key,listed,rfl⟩ := List.mem_map.mp member
    exact List.mem_range.mpr (present key listed)
  simpa using (List.subperm_of_subset indices inside).length_le

theorem Siblings.length_le (siblings : f.Siblings parent keys) : keys.length ≤ f.size :=
  length_le_size siblings.distinct fun key member => contains_of_parent ((siblings.members key).mp member)

theorem siblingsFrom_eq {fuel : Nat} (chain : Chain (fun key => (f.links key).nextSibling) start keys none)
    (enough : keys.length ≤ fuel) : f.siblingsFrom fuel start = keys := by
  induction keys generalizing fuel start with
  | nil =>
      cases chain
      cases fuel <;> rfl
  | cons key rest ih =>
      obtain ⟨rfl,more⟩ := chain
      cases fuel with
      | zero => cases enough
      | succ fuel => rw [siblingsFrom,ih more (Nat.le_of_succ_le_succ enough)]

theorem siblingsBack_eq {fuel : Nat} (chain : Chain (fun key => (f.links key).previousSibling) start keys none)
    (enough : keys.length ≤ fuel) : f.siblingsBack fuel start = keys := by
  induction keys generalizing fuel start with
  | nil =>
      cases chain
      cases fuel <;> rfl
  | cons key rest ih =>
      obtain ⟨rfl,more⟩ := chain
      cases fuel with
      | zero => cases enough
      | succ fuel => rw [siblingsBack,ih more (Nat.le_of_succ_le_succ enough)]

theorem Siblings.children_eq (siblings : f.Siblings parent keys) : f.children parent = keys :=
  siblingsFrom_eq siblings.forward siblings.length_le

theorem Siblings.childrenBack_eq (siblings : f.Siblings parent keys) : f.childrenBack parent = keys.reverse :=
  siblingsBack_eq siblings.backward (by simpa using siblings.length_le)

theorem children_of_bare (bare : f.links parent = .none) : f.children parent = [] := by
  rw [children,bare]
  cases f.size <;> rfl

theorem children_of_missing (missing : ¬f.Contains parent) : f.children parent = [] :=
  children_of_bare (links_of_missing missing)

theorem Linked.siblings_children (linked : f.Linked) (present : f.Contains parent) :
    f.Siblings parent (f.children parent) := by
  obtain ⟨keys,siblings⟩ := linked.siblings parent present
  rwa [siblings.children_eq]

theorem Linked.mem_children (linked : f.Linked) : child ∈ f.children parent ↔ (f.links child).parent = some parent := by
  by_cases present : f.Contains parent
  · exact (linked.siblings_children present).members child
  · rw [children_of_missing present]
    constructor
    · intro member
      cases member
    · intro under
      exact absurd (linked.named_present child parent (.inl under)) present

theorem Linked.parent_of_mem_childrenBack (linked : f.Linked) (member : child ∈ f.childrenBack parent) :
    (f.links child).parent = some parent := by
  by_cases present : f.Contains parent
  · have siblings := linked.siblings_children present
    rw [siblings.childrenBack_eq] at member
    exact (siblings.members child).mp (List.mem_reverse.mp member)
  · rw [childrenBack,links_of_missing present] at member
    cases size : f.size <;> rw [size] at member <;> cases member

theorem Linked.nodup_children (linked : f.Linked) (parent : Key) : (f.children parent).Nodup := by
  by_cases present : f.Contains parent
  · exact (linked.siblings_children present).distinct
  · rw [children_of_missing present]
    exact .nil

theorem SameLinks.children_eq (same : SameLinks f g) (parent : Key) : g.children parent = f.children parent := by
  have links : g.links = f.links := funext same.links_eq
  have from_any : ∀ fuel start, g.siblingsFrom fuel start = f.siblingsFrom fuel start := by
    intro fuel
    induction fuel with
    | zero => intro start; cases start <;> rfl
    | succ fuel ih =>
        intro start
        cases start with
        | none => rfl
        | some key => rw [siblingsFrom,siblingsFrom,ih,links]
  rw [children,children,from_any,links,same.size_eq]

def rects (f : Forest) : Array Rect := f.controls.map (·.box.rect)

-- After any calls: one record and one rectangle to each key, the first of them the
-- root; the children of a control are the controls under it, linked both ways; and
-- no key is the reserved one before the words run out.
theorem linked_after (commands : List Command) :
    (after commands).rects.size = (after commands).size ∧ (after commands).Linked ∧
      (∀ parent, (after commands).Contains parent →
        (after commands).Siblings parent ((after commands).children parent) ∧
          (after commands).childrenBack parent = ((after commands).children parent).reverse) ∧
      (commands.countP Command.creates < Key.reserved.index →
        ∀ key, (after commands).Contains key → key ≠ .reserved) := by
  have linked := (reachable_after commands).linked
  refine ⟨by simp [rects,size],linked,?_,?_⟩
  · intro parent present
    have siblings := linked.siblings_children present
    exact ⟨siblings,siblings.childrenBack_eq⟩
  · intro few key present reserved
    have size := size_after commands
    subst key
    have inside : Key.reserved.index < (after commands).size := present
    omega

def mixedCalls : List Command := [.createChild .root,.insertAtEnd ⟨1⟩ .root,.create,.insertBefore ⟨1⟩ ⟨2⟩]

theorem linked_after_mixedCalls :
    mixedCalls.countP Command.creates < Key.reserved.index ∧ (after mixedCalls).Contains .root ∧
      (after mixedCalls).Siblings .root [⟨2⟩,⟨1⟩] ∧ (after mixedCalls).childrenBack .root = [⟨1⟩,⟨2⟩] ∧
      ∀ key, (after mixedCalls).Contains key → key ≠ .reserved := by
  have few : mixedCalls.countP Command.creates < Key.reserved.index := by decide
  have present : (after mixedCalls).Contains .root := by decide
  obtain ⟨_,_,siblings,apart⟩ := linked_after mixedCalls
  obtain ⟨forward,backward⟩ := siblings _ present
  exact ⟨few,present,forward,backward,apart few⟩

end BoxLayout.Forest
