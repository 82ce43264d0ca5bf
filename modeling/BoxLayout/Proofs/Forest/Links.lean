import Mathlib.Data.List.Nodup
import BoxLayout.Forest.Insert
import BoxLayout.Proofs.Forest.Chain
import BoxLayout.Proofs.Forest.Lookup

namespace BoxLayout

-- What the links of a forest say, and that splicing keeps it true. Cycles of
-- unattached controls are not excluded, so nothing here follows parents upwards.

def Links.Names (links : Links) (key : Key) : Prop :=
  links.parent = some key ∨ links.firstChild = some key ∨ links.lastChild = some key ∨
    links.previousSibling = some key ∨ links.nextSibling = some key

theorem Links.names_none (key : Key) : ¬Links.none.Names key := by simp [Links.Names,Links.none]

namespace Forest

-- The sibling list below a parent: all controls under it, once each, met in this
-- order along the next siblings and in the reverse order along the previous ones.
structure Siblings (f : Forest) (parent : Key) (keys : List Key) : Prop where
  distinct : keys.Nodup
  members : ∀ key, key ∈ keys ↔ (f.links key).parent = some parent
  last : (f.links parent).lastChild = keys.getLast?
  forward : Chain (fun key => (f.links key).nextSibling) (f.links parent).firstChild keys none
  backward : Chain (fun key => (f.links key).previousSibling) (f.links parent).lastChild keys.reverse none

structure Linked (f : Forest) : Prop where
  root_present : 1 ≤ f.size
  own_key : ∀ key, f.Contains key → f.keyOf key = some key
  named_present : ∀ key named, (f.links key).Names named → f.Contains named
  root_free : (f.links .root).parent = none
  free_alone : ∀ key, (f.links key).parent = none →
    (f.links key).previousSibling = none ∧ (f.links key).nextSibling = none
  siblings : ∀ parent, f.Contains parent → ∃ keys, f.Siblings parent keys

variable {f g : Forest} {parent child key : Key} {keys before after : List Key} {previous next : Option Key}

theorem Siblings.not_mem (siblings : f.Siblings parent keys) (free : (f.links child).parent = none) :
    child ∉ keys := by
  intro member
  have under := (siblings.members child).mp member
  simp [free] at under

theorem Siblings.unique {keys' : List Key} (one : f.Siblings parent keys) (two : f.Siblings parent keys') :
    keys = keys' := one.forward.unique two.forward

theorem Siblings.first_eq (siblings : f.Siblings parent keys) : (f.links parent).firstChild = keys.head? :=
  siblings.forward.start_eq

theorem Siblings.next_eq (siblings : f.Siblings parent (before ++ key :: after)) :
    (f.links key).nextSibling = after.head? := siblings.forward.next_eq

theorem Siblings.previous_eq (siblings : f.Siblings parent (before ++ key :: after)) :
    (f.links key).previousSibling = before.getLast? := by
  have backward := siblings.backward
  rw [List.reverse_append,List.reverse_cons,List.append_assoc] at backward
  simpa using backward.next_eq

theorem Siblings.parent_unique {other : Key} {others : List Key} (one : f.Siblings parent keys)
    (two : f.Siblings other others) (inOne : key ∈ keys) (inTwo : key ∈ others) : other = parent := by
  have under := (one.members key).mp inOne
  rw [(two.members key).mp inTwo] at under
  exact Option.some.inj under

theorem Siblings.nothing_after (siblings : f.Siblings parent (before ++ key :: after))
    (last : (f.links parent).lastChild = some key) : after = [] := by
  rw [siblings.last,List.getLast?_append_of_ne_nil _ (by simp)] at last
  have alone := (List.nodup_cons.mp (List.nodup_append.mp siblings.distinct).2.1).1
  cases after with
  | nil => rfl
  | cons next rest =>
      rw [List.getLast?_cons_cons] at last
      exact absurd (List.mem_of_getLast? last) alone

theorem Siblings.nothing_before (siblings : f.Siblings parent (before ++ key :: after))
    (first : (f.links parent).firstChild = some key) : before = [] := by
  rw [siblings.first_eq] at first
  cases before with
  | nil => rfl
  | cons head rest =>
      cases first
      exact absurd (by simp) (List.nodup_cons.mp siblings.distinct).1

theorem contains_root (linked : f.Linked) : f.Contains .root := linked.root_present

-- All links after a splice at once. The neighbours are never the child itself, so
-- no two of the writes meet in one field.
theorem links_splice (parentThere : f.Contains parent) (childThere : f.Contains child)
    (previousThere : ∀ other, previous = some other → f.Contains other)
    (nextThere : ∀ other, next = some other → f.Contains other) (key : Key) :
    (f.splice parent previous next child).links key =
      { parent := if child = key then some parent else (f.links key).parent
        firstChild := if previous = none ∧ parent = key then some child else (f.links key).firstChild
        lastChild := if next = none ∧ parent = key then some child else (f.links key).lastChild
        previousSibling := if next = some key then some child
          else if child = key then previous else (f.links key).previousSibling
        nextSibling := if previous = some key then some child
          else if child = key then next else (f.links key).nextSibling } := by
  have there : ∀ (h : Forest) other change, h.size = f.size → f.Contains other →
      ∀ key, (h.editLinks other change).links key = if other = key then change (h.links key) else h.links key := by
    intro h other change same present key
    exact links_editLinks _ _ _ _ (by simpa only [Contains,same] using present)
  cases previous with
  | none =>
      cases next with
      | none =>
          simp only [splice]
          rw [there _ _ _ (by simp only [size_editLinks]) parentThere,there _ _ _ (by simp only [size_editLinks]) parentThere,
            there _ _ _ rfl childThere]
          split <;> split <;> simp_all
      | some after =>
          simp only [splice]
          rw [there _ _ _ (by simp only [size_editLinks]) (nextThere _ rfl),
            there _ _ _ (by simp only [size_editLinks]) parentThere,there _ _ _ rfl childThere]
          split <;> split <;> split <;> simp_all
  | some before =>
      cases next with
      | none =>
          simp only [splice]
          rw [there _ _ _ (by simp only [size_editLinks]) parentThere,
            there _ _ _ (by simp only [size_editLinks]) (previousThere _ rfl),there _ _ _ rfl childThere]
          split <;> split <;> split <;> simp_all
      | some after =>
          simp only [splice]
          rw [there _ _ _ (by simp only [size_editLinks]) (nextThere _ rfl),
            there _ _ _ (by simp only [size_editLinks]) (previousThere _ rfl),there _ _ _ rfl childThere]
          split <;> split <;> split <;> simp_all

theorem size_splice (f : Forest) (parent : Key) (previous next : Option Key) (child : Key) :
    (f.splice parent previous next child).size = f.size := by
  cases previous <;> cases next <;> simp only [splice,size_editLinks]

theorem keyOf_splice (f : Forest) (parent : Key) (previous next : Option Key) (child key : Key) :
    (f.splice parent previous next child).keyOf key = f.keyOf key := by
  cases previous <;> cases next <;> simp only [splice,keyOf_editLinks]

theorem box_splice (f : Forest) (parent : Key) (previous next : Option Key) (child key : Key) :
    (f.splice parent previous next child).box key = f.box key := by
  cases previous <;> cases next <;> simp only [splice,box_editLinks]

theorem tag_splice (f : Forest) (parent : Key) (previous next : Option Key) (child key : Key) :
    (f.splice parent previous next child).tag key = f.tag key := by
  cases previous <;> cases next <;> simp only [splice,tag_editLinks]

-- A splice that is about to happen: the child is free, and it goes between two
-- stretches of the parent's list.
structure Spliceable (f : Forest) (parent : Key) (before after : List Key) (child : Key) : Prop where
  parent_present : f.Contains parent
  child_present : f.Contains child
  child_not_root : child ≠ .root
  free : (f.links child).parent = none
  siblings : f.Siblings parent (before ++ after)

def spliced (f : Forest) (parent : Key) (before after : List Key) (child : Key) : Forest :=
  f.splice parent before.getLast? after.head? child

theorem contains_spliced : (f.spliced parent before after child).Contains key ↔ f.Contains key := by
  simp only [Contains,spliced,size_splice]

theorem mem_of_last_before (found : before.getLast? = some key) : key ∈ before ++ after :=
  List.mem_append_left _ (List.mem_of_getLast? found)

theorem mem_of_first_after (found : after.head? = some key) : key ∈ before ++ after :=
  List.mem_append_right _ (List.mem_of_head? found)

section Splice
variable (ready : f.Spliceable parent before after child)
include ready

theorem Spliceable.present (member : key ∈ before ++ after) : f.Contains key :=
  contains_of_parent ((ready.siblings.members key).mp member)

theorem Spliceable.links_eq (key : Key) : (f.spliced parent before after child).links key =
    { parent := if child = key then some parent else (f.links key).parent
      firstChild := if before.getLast? = none ∧ parent = key then some child else (f.links key).firstChild
      lastChild := if after.head? = none ∧ parent = key then some child else (f.links key).lastChild
      previousSibling := if after.head? = some key then some child
        else if child = key then before.getLast? else (f.links key).previousSibling
      nextSibling := if before.getLast? = some key then some child
        else if child = key then after.head? else (f.links key).nextSibling } :=
  links_splice ready.parent_present ready.child_present
    (fun _ found => ready.present (mem_of_last_before found))
    (fun _ found => ready.present (mem_of_first_after found)) key

theorem Spliceable.fresh : child ∉ before ++ after := ready.siblings.not_mem ready.free

theorem Spliceable.place_kept (other : child ≠ key) (outside : key ∉ before ++ after) :
    ((f.spliced parent before after child).links key).parent = (f.links key).parent ∧
      ((f.spliced parent before after child).links key).previousSibling = (f.links key).previousSibling ∧
      ((f.spliced parent before after child).links key).nextSibling = (f.links key).nextSibling := by
  have notLast : before.getLast? ≠ some key := fun found => outside (mem_of_last_before found)
  have notFirst : after.head? ≠ some key := fun found => outside (mem_of_first_after found)
  simp only [ready.links_eq,if_neg other,if_neg notLast,if_neg notFirst,and_self]

theorem Spliceable.siblings_parent :
    (f.spliced parent before after child).Siblings parent (before ++ child :: after) where
  distinct := by
    rw [List.nodup_middle]
    exact List.nodup_cons.mpr ⟨ready.fresh,ready.siblings.distinct⟩
  members key := by
    rw [ready.links_eq,List.mem_append,List.mem_cons]
    have member := ready.siblings.members key
    rw [List.mem_append] at member
    by_cases same : child = key
    · simp [same]
    · have other : key ≠ child := fun equal => same equal.symm
      simp only [if_neg same,← member,other,false_or]
  last := by
    rw [ready.links_eq]
    cases after with
    | nil => simp
    | cons next rest =>
        simp only [List.head?_cons,reduceCtorEq,false_and,if_false,ready.siblings.last]
        simp [List.getLast?_append,List.getLast?_cons_cons]
  forward := by
    have notLast : before.getLast? ≠ some child := fun found => ready.fresh (mem_of_last_before found)
    have chain := ready.siblings.forward.insert (fun key => ((f.spliced parent before after child).links key).nextSibling)
      child ready.siblings.distinct (by simp [ready.links_eq,notLast]) (by
        intro key found
        simp [ready.links_eq,found]) (by
        intro key member apart
        have other : child ≠ key := fun same => ready.fresh (same ▸ member)
        simp [ready.links_eq,apart,other])
    simpa [ready.links_eq,List.getLast?_eq_none_iff] using chain
  backward := by
    have notFirst : after.head? ≠ some child := fun found => ready.fresh (mem_of_first_after found)
    have backward := ready.siblings.backward
    have distinct := List.nodup_reverse.mpr ready.siblings.distinct
    rw [List.reverse_append] at backward distinct
    have chain := backward.insert (fun key => ((f.spliced parent before after child).links key).previousSibling)
      child distinct (by simp [ready.links_eq,notFirst]) (by
        intro key found
        rw [List.getLast?_reverse] at found
        simp [ready.links_eq,found]) (by
        intro key member apart
        rw [List.getLast?_reverse] at apart
        rw [← List.reverse_append,List.mem_reverse] at member
        have other : child ≠ key := fun same => ready.fresh (same ▸ member)
        simp [ready.links_eq,apart,other])
    simpa [ready.links_eq,List.head?_eq_none_iff] using chain

-- Lists below other parents stay: a control hangs below one parent only.
theorem Spliceable.siblings_other {other : Key} (elsewhere : other ≠ parent) (siblings : f.Siblings other keys) :
    (f.spliced parent before after child).Siblings other keys := by
  have notParent : parent ≠ other := fun same => elsewhere same.symm
  have notChild : ∀ key ∈ keys, child ≠ key := by
    intro key member same
    exact siblings.not_mem ready.free (same ▸ member)
  have outside : ∀ key ∈ keys, key ∉ before ++ after := by
    intro key member inside
    exact notParent (siblings.parent_unique ready.siblings member inside)
  refine ⟨siblings.distinct,?_,?_,?_,?_⟩
  · intro key
    rw [siblings.members,ready.links_eq]
    by_cases same : child = key
    · subst key
      simp [ready.free,notParent]
    · simp only [if_neg same]
  · simp only [ready.links_eq,notParent,and_false,if_false]
    exact siblings.last
  · have chain := siblings.forward.congr (fun key => ((f.spliced parent before after child).links key).nextSibling)
      (fun key member => (ready.place_kept (notChild key member) (outside key member)).2.2)
    simpa [ready.links_eq,notParent] using chain
  · have chain := siblings.backward.congr (fun key => ((f.spliced parent before after child).links key).previousSibling) (by
      intro key member
      rw [List.mem_reverse] at member
      exact (ready.place_kept (notChild key member) (outside key member)).2.1)
    simpa [ready.links_eq,notParent] using chain

theorem Spliceable.named_present (linked : f.Linked) {named : Key}
    (names : ((f.spliced parent before after child).links key).Names named) : f.Contains named := by
  have old : (f.links key).Names named → f.Contains named := linked.named_present key named
  have given : ∀ {given named : Key}, f.Contains given → some given = some named → f.Contains named := by
    intro given named present same
    exact Option.some.inj same ▸ present
  rw [ready.links_eq] at names
  rcases names with found | found | found | found | found
  · dsimp only at found
    split at found
    · exact given ready.parent_present found
    · exact old (.inl found)
  · dsimp only at found
    split at found
    · exact given ready.child_present found
    · exact old (.inr (.inl found))
  · dsimp only at found
    split at found
    · exact given ready.child_present found
    · exact old (.inr (.inr (.inl found)))
  · dsimp only at found
    split at found
    · exact given ready.child_present found
    · split at found
      · exact ready.present (mem_of_last_before found)
      · exact old (.inr (.inr (.inr (.inl found))))
  · dsimp only at found
    split at found
    · exact given ready.child_present found
    · split at found
      · exact ready.present (mem_of_first_after found)
      · exact old (.inr (.inr (.inr (.inr found))))

theorem Spliceable.linked (linked : f.Linked) : (f.spliced parent before after child).Linked where
  root_present := by
    rw [spliced,size_splice]
    exact linked.root_present
  own_key key present := by
    rw [spliced,keyOf_splice]
    exact linked.own_key key (contains_spliced.mp present)
  named_present key named names := contains_spliced.mpr (ready.named_present linked names)
  root_free := by
    simp only [ready.links_eq,if_neg ready.child_not_root]
    exact linked.root_free
  free_alone key alone := by
    have notChild : child ≠ key := by
      intro same
      rw [ready.links_eq,if_pos same] at alone
      cases alone
    have free : (f.links key).parent = none := by
      simpa only [ready.links_eq,if_neg notChild] using alone
    obtain ⟨_,previous,next⟩ := ready.place_kept notChild (ready.siblings.not_mem free)
    rw [previous,next]
    exact linked.free_alone key free
  siblings other present := by
    by_cases same : other = parent
    · subst other
      exact ⟨_,ready.siblings_parent⟩
    · obtain ⟨keys,siblings⟩ := linked.siblings other (contains_spliced.mp present)
      exact ⟨keys,ready.siblings_other same siblings⟩

end Splice

end Forest
end BoxLayout
