import Mathlib.Logic.Relation
import BoxLayout.Proofs.Forest.Subtree

namespace BoxLayout.Forest

-- Below the root hangs a finite tree, whatever cycles unattached controls form.
-- Walks and recursions that start there come to an end by themselves; the steps they
-- are given elsewhere never run out.

variable {f : Forest} {top key child parent : Key} {t : Tree Key} {stack met : List Key}

def Reached (f : Forest) (key : Key) : Prop :=
  Relation.ReflTransGen (fun parent child => child ∈ f.children parent) .root key

-- The walk with a stack and no bound: the top key is listed and gives way to its
-- children, found from the last one backwards, until the stack is empty.
inductive Walks (f : Forest) : List Key → List Key → Prop where
  | done : Walks f [] []
  | step {key : Key} {back stack met : List Key} :
      Chain (fun key => (f.links key).previousSibling) (f.links key).lastChild back none →
      Walks f (back.reverse ++ stack) met → Walks f (key :: stack) (key :: met)

-- A recursion from a key ends when the loop over its children does, in either
-- direction, and the recursion from every child.
inductive Ends (f : Forest) : Key → Prop where
  | node {key : Key} {keys : List Key} :
      Chain (fun key => (f.links key).nextSibling) (f.links key).firstChild keys none →
      Chain (fun key => (f.links key).previousSibling) (f.links key).lastChild keys.reverse none →
      (∀ child ∈ keys, Ends f child) → Ends f key

theorem reached_iff_attached (linked : f.Linked) : f.Reached key ↔ f.Attached key := by
  constructor
  · intro reached
    induction reached with
    | refl => exact .self
    | tail _ listed ih => exact .child (linked.mem_children.mp listed) ih
  · intro attached
    induction attached with
    | self => exact .refl
    | child under _ ih => exact .tail ih (linked.mem_children.mpr under)

theorem Linked.forward (linked : f.Linked) (key : Key) :
    Chain (fun key => (f.links key).nextSibling) (f.links key).firstChild (f.children key) none := by
  by_cases present : f.Contains key
  · exact (linked.siblings_children present).forward
  · rw [links_of_missing present,children_of_missing present]
    rfl

theorem Linked.backward (linked : f.Linked) (key : Key) :
    Chain (fun key => (f.links key).previousSibling) (f.links key).lastChild (f.children key).reverse none := by
  by_cases present : f.Contains key
  · exact (linked.siblings_children present).backward
  · rw [links_of_missing present,children_of_missing present]
    rfl

-- By induction on what is still to be listed: a step lists one key, and the subtrees
-- of its children take the place of its own.
theorem walks_preorder (linked : f.Linked) (trees : List (Tree Key)) (each : ∀ t ∈ trees, f.Outlines t) :
    f.Walks (trees.map Tree.value) (trees.flatMap Tree.preorder) := by
  induction left : (trees.flatMap Tree.preorder).length using Nat.strongRecOn generalizing trees with
  | ind left ih =>
      cases trees with
      | nil => exact .done
      | cons tree rest =>
          cases each tree List.mem_cons_self with
          | @node key below listed further =>
              have order : (.node key below :: rest : List (Tree Key)).flatMap Tree.preorder =
                  key :: (below ++ rest).flatMap Tree.preorder := by
                rw [List.flatMap_cons,Tree.preorder_node,List.flatMap_append,List.cons_append]
              have next : f.Walks ((below ++ rest).map Tree.value) ((below ++ rest).flatMap Tree.preorder) := by
                refine ih _ ?_ (below ++ rest) ?_ rfl
                · rw [← left,order,List.length_cons]
                  exact Nat.lt_succ_self _
                · intro t member
                  rcases List.mem_append.mp member with inside | later
                  · exact further t inside
                  · exact each t (List.mem_cons_of_mem _ later)
              rw [order]
              refine .step (linked.backward key) ?_
              rwa [List.map_append,listed,← List.reverse_reverse (f.children key)] at next

theorem childrenBack_eq (linked : f.Linked) {back : List Key}
    (chain : Chain (fun key => (f.links key).previousSibling) (f.links key).lastChild back none) :
    f.childrenBack key = back := by
  refine siblingsBack_eq chain ?_
  rw [chain.unique (linked.backward key),List.length_reverse]
  refine length_le_size (linked.nodup_children key) ?_
  intro child listed
  exact contains_of_parent (linked.mem_children.mp listed)

theorem Walks.walk_eq (linked : f.Linked) (walks : f.Walks stack met) {fuel : Nat} (enough : met.length ≤ fuel) :
    f.walk fuel stack = met := by
  induction walks generalizing fuel with
  | done => cases fuel <;> rfl
  | step chain _ ih =>
      cases fuel with
      | zero => cases enough
      | succ fuel =>
          rw [walk,childrenBack_eq linked chain,List.foldl_flip_cons_eq_append',ih (Nat.le_of_succ_le_succ enough)]

theorem walks_outline (linked : f.Linked) (present : f.Contains top) (acyclic : f.Acyclic top) :
    f.Walks [top] (f.outline top).preorder := by
  have walks := walks_preorder linked [f.outline top] fun t only => by
    rw [List.mem_singleton.mp only]
    exact outlines_outline linked present acyclic
  rwa [List.map_singleton,value_outline,List.flatMap_singleton] at walks

theorem nodup_outline (linked : f.Linked) (present : f.Contains top) (acyclic : f.Acyclic top) :
    (f.outline top).preorder.Nodup :=
  (outlines_outline linked present acyclic).nodup_preorder linked (by rwa [value_outline])

theorem descendants_eq (linked : f.Linked) (present : f.Contains top) (acyclic : f.Acyclic top) :
    f.descendants top = (f.outline top).preorder := by
  unfold descendants
  rw [if_pos present]
  refine (walks_outline linked present acyclic).walk_eq linked ?_
  refine length_le_size (nodup_outline linked present acyclic) ?_
  intro key listed
  exact ((linked.mem_outline present acyclic).mp listed).contains present

theorem Outlines.ends (linked : f.Linked) (outlines : f.Outlines t) : f.Ends t.value := by
  induction outlines with
  | @node top trees listed _ ih =>
      refine .node (linked.forward top) (linked.backward top) ?_
      intro child member
      rw [← listed] at member
      obtain ⟨tree,inside,rfl⟩ := List.mem_map.mp member
      exact ih tree inside

-- A recursion that ends never comes back to where it started.
theorem Ends.acyclic (linked : f.Linked) (ends : f.Ends key) : f.Acyclic key := by
  induction ends with
  | @node key keys forward _ _ ih =>
      have below : ∀ {child}, (f.links child).parent = some key → f.Acyclic child := by
        intro child under
        have listed := linked.mem_children.mpr under
        rw [(linked.forward key).unique forward] at listed
        exact ih child listed
      rintro ⟨parent,above,inside⟩
      rcases inside.down with rfl | ⟨child,under,further⟩
      · exact below above ⟨_,above,.self⟩
      · exact below under ⟨key,under,.child above further⟩

theorem ends_iff (linked : f.Linked) (present : f.Contains key) : f.Ends key ↔ f.Acyclic key := by
  refine ⟨Ends.acyclic linked,fun acyclic => ?_⟩
  have ends := (outlines_outline linked present acyclic).ends linked
  rwa [value_outline] at ends

-- Whatever was called before: nothing met below the root is its own ancestor; the walk
-- from there ends and is the recursive one, a control before its children's subtrees in
-- sibling order; it lists each control met below the root once, and nothing else; and
-- every recursion from such a control ends.
theorem reached_tree (path : f.Reachable) :
    (∀ key, f.Reached key → f.Acyclic key) ∧
      f.Walks [.root] (f.descendants .root) ∧
      (f.Outlines (f.outline .root) ∧ (f.outline .root).value = .root ∧
        f.descendants .root = (f.outline .root).preorder) ∧
      (f.descendants .root).Nodup ∧ (∀ key, key ∈ f.descendants .root ↔ f.Reached key) ∧
      ∀ key, f.Reached key → f.Ends key := by
  have linked := path.linked
  have present := contains_root linked
  have acyclic := acyclic_root linked
  have walked := descendants_eq linked present acyclic
  have below : ∀ key, f.Reached key → f.Acyclic key := fun key reached =>
    acyclic.within ((reached_iff_attached linked).mp reached)
  refine ⟨below,?_,⟨outlines_outline linked present acyclic,value_outline f .root,walked⟩,?_,?_,?_⟩
  · rw [walked]
    exact walks_outline linked present acyclic
  · rw [walked]
    exact nodup_outline linked present acyclic
  · intro key
    rw [walked,reached_iff_attached linked]
    exact linked.mem_outline_root
  · intro key reached
    have inside : f.Contains key := ((reached_iff_attached linked).mp reached).contains present
    exact (ends_iff linked inside).mpr (below key reached)

def knotted : Forest := after
  [.create,.createChild ⟨1⟩,.insertAtEnd ⟨2⟩ ⟨1⟩,.createChild .root,.create,.insertAtStart .root ⟨4⟩,.createChild ⟨4⟩]

theorem reached_tree_knotted :
    knotted.Reachable ∧ ¬knotted.Acyclic ⟨1⟩ ∧ ¬knotted.Ends ⟨1⟩ ∧
      knotted.Walks [.root] [.root,⟨4⟩,⟨5⟩,⟨3⟩] ∧ knotted.Reached ⟨5⟩ ∧ knotted.Acyclic ⟨5⟩ ∧ knotted.Ends .root := by
  have path : knotted.Reachable := reachable_after _
  have cycle : ¬knotted.Acyclic ⟨1⟩ := fun acyclic => acyclic ⟨⟨2⟩,by decide,.child (by decide) .self⟩
  obtain ⟨acyclic,walks,_,_,listed,ends⟩ := reached_tree path
  have met : knotted.descendants .root = [.root,⟨4⟩,⟨5⟩,⟨3⟩] := by decide
  rw [met] at walks listed
  have inside : knotted.Reached ⟨5⟩ := (listed _).mp (by decide)
  exact ⟨path,cycle,fun ends => cycle (ends.acyclic path.linked),walks,inside,acyclic _ inside,ends _ .refl⟩

end BoxLayout.Forest
