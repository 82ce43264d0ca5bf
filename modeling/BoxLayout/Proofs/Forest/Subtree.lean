import Mathlib.Data.List.Nodup
import BoxLayout.Proofs.Tree
import BoxLayout.Proofs.Forest.Children

namespace BoxLayout.Forest

-- Subtrees by following parents upwards, and the outlines read off the links.

variable {f g : Forest} {top key child parent a b c : Key} {t u : Tree Key}

inductive Within (f : Forest) (top : Key) : Key → Prop where
  | self : Within f top top
  | child {key parent : Key} : (f.links key).parent = some parent → Within f top parent → Within f top key

def Attached (f : Forest) (key : Key) : Prop := f.Within .root key

def Above (f : Forest) (top key : Key) : Prop := ∃ parent, (f.links key).parent = some parent ∧ f.Within top parent

def Acyclic (f : Forest) (key : Key) : Prop := ¬f.Above key key

theorem Within.trans (one : f.Within a b) (two : f.Within b c) : f.Within a c := by
  induction two with
  | self => exact one
  | child under _ ih => exact .child under ih

theorem Within.linear (one : f.Within a c) (two : f.Within b c) : f.Within a b ∨ f.Within b a := by
  induction one with
  | self => exact .inr two
  | child under above ih =>
      cases two with
      | self => exact .inl (.child under above)
      | child under' above' =>
          rw [under] at under'
          cases under'
          exact ih above'

theorem SameLinks.within_iff (same : SameLinks f g) : g.Within top key ↔ f.Within top key := by
  constructor
  · intro inside
    induction inside with
    | self => exact .self
    | child under _ ih => exact .child (by rwa [same.links_eq] at under) ih
  · intro inside
    induction inside with
    | self => exact .self
    | child under _ ih => exact .child (by rwa [same.links_eq]) ih

theorem SameLinks.acyclic_iff (same : SameLinks f g) : g.Acyclic key ↔ f.Acyclic key := by
  simp only [Acyclic,Above,same.within_iff,same.links_eq]

theorem acyclic_root (linked : f.Linked) : f.Acyclic .root := by
  rintro ⟨parent,under,_⟩
  rw [linked.root_free] at under
  cases under

theorem Linked.ne_root (linked : f.Linked) (under : (f.links child).parent = some parent) : child ≠ .root := by
  rintro rfl
  rw [linked.root_free] at under
  cases under

theorem Linked.within_root (linked : f.Linked) (inside : f.Within top .root) : top = .root := by
  cases inside with
  | self => rfl
  | child under _ => exact absurd rfl (linked.ne_root under)

theorem Acyclic.of_parent (acyclic : f.Acyclic parent) (under : (f.links child).parent = some parent) :
    f.Acyclic child := by
  rintro ⟨other,under',inside⟩
  rw [under] at under'
  cases under'
  apply acyclic
  cases inside with
  | self => exact ⟨_,under,.self⟩
  | child above inside => exact ⟨_,above,Within.trans (.child under .self) inside⟩

theorem Acyclic.within (acyclic : f.Acyclic top) (inside : f.Within top key) : f.Acyclic key := by
  induction inside with
  | self => exact acyclic
  | child under _ ih => exact ih.of_parent under

theorem Within.contains (inside : f.Within top key) (present : f.Contains top) : f.Contains key := by
  cases inside with
  | self => exact present
  | child under _ => exact contains_of_parent under

theorem Linked.contains_attached (linked : f.Linked) (attached : f.Attached key) : f.Contains key :=
  attached.contains (contains_root linked)

theorem Linked.acyclic_attached (linked : f.Linked) (attached : f.Attached key) : f.Acyclic key :=
  (acyclic_root linked).within attached

theorem Linked.attached_parent (linked : f.Linked) (attached : f.Attached child)
    (under : (f.links child).parent = some parent) : f.Attached parent := by
  cases attached with
  | self =>
      rw [linked.root_free] at under
      cases under
  | child above inside =>
      rw [under] at above
      cases above
      exact inside

-- Going down instead of up: a key below the top lies in the subtree of one child.
theorem Within.down (inside : f.Within top key) :
    key = top ∨ ∃ child, (f.links child).parent = some top ∧ f.Within child key := by
  induction inside with
  | self => exact .inl rfl
  | child under _ ih =>
      right
      rcases ih with rfl | ⟨child,above,inside⟩
      · exact ⟨_,under,.self⟩
      · exact ⟨child,above,.child under inside⟩

theorem Within.same_child (acyclic : f.Acyclic parent) (oneUnder : (f.links a).parent = some parent)
    (twoUnder : (f.links b).parent = some parent) (one : f.Within a key) (two : f.Within b key) : a = b := by
  have apart : ∀ {x y}, (f.links x).parent = some parent → (f.links y).parent = some parent → f.Within x y → x = y := by
    intro x y xUnder yUnder inside
    cases inside with
    | self => rfl
    | child under above =>
        rw [yUnder] at under
        cases under
        exact absurd ⟨_,xUnder,above⟩ (acyclic.of_parent xUnder)
  rcases one.linear two with inside | inside
  · exact apart oneUnder twoUnder inside
  · exact (apart twoUnder oneUnder inside).symm

inductive Outlines (f : Forest) : Tree Key → Prop where
  | node {key : Key} {trees : List (Tree Key)} : trees.map Tree.value = f.children key →
      (∀ tree ∈ trees, Outlines f tree) → Outlines f (.node key trees)

theorem value_outlineTo (fuel : Nat) (key : Key) : (f.outlineTo fuel key).value = key := by
  cases fuel <;> rfl

theorem value_outline (f : Forest) (key : Key) : (f.outline key).value = key := value_outlineTo _ _

structure Descent (f : Forest) (path : List Key) (key : Key) : Prop where
  distinct : (key :: path).Nodup
  present : ∀ other ∈ key :: path, f.Contains other
  above : ∀ other ∈ path, f.Above other key
  acyclic : f.Acyclic key

theorem Descent.start (present : f.Contains key) (acyclic : f.Acyclic key) : f.Descent [] key where
  distinct := List.nodup_singleton key
  present _ member := List.mem_singleton.mp member ▸ present
  above _ member := nomatch member
  acyclic := acyclic

-- Nothing is met twice: what was passed is above the child, and the child is not
-- above itself.
theorem Descent.down {path : List Key} (descent : f.Descent path key) (under : (f.links child).parent = some key) :
    f.Descent (key :: path) child := by
  have acyclic := descent.acyclic.of_parent under
  have above : ∀ other ∈ key :: path, f.Above other child := by
    intro other member
    rcases List.mem_cons.mp member with rfl | member
    · exact ⟨_,under,.self⟩
    · obtain ⟨next,step,inside⟩ := descent.above other member
      exact ⟨key,under,.child step inside⟩
  refine ⟨?_,?_,above,acyclic⟩
  · exact List.nodup_cons.mpr ⟨fun member => acyclic (above child member),descent.distinct⟩
  · intro other member
    rcases List.mem_cons.mp member with rfl | member
    · exact contains_of_parent under
    · exact descent.present other member

-- So the way down is never longer than the forest is large, and the steps do not
-- run out before it ends.
theorem outlines_outlineTo (linked : f.Linked) {fuel : Nat} {path : List Key} (descent : f.Descent path key)
    (enough : f.size ≤ path.length + fuel) : f.Outlines (f.outlineTo fuel key) := by
  induction fuel generalizing key path with
  | zero =>
      have room := length_le_size descent.distinct descent.present
      rw [List.length_cons] at room
      omega
  | succ fuel ih =>
      refine .node ?_ ?_
      · rw [List.map_map]
        exact (List.map_congr_left fun other _ => value_outlineTo fuel other).trans (List.map_id _)
      · intro tree member
        obtain ⟨child,listed,rfl⟩ := List.mem_map.mp member
        apply ih (descent.down (linked.mem_children.mp listed))
        rw [List.length_cons]
        omega

theorem outlines_outline (linked : f.Linked) (present : f.Contains key) (acyclic : f.Acyclic key) :
    f.Outlines (f.outline key) :=
  outlines_outlineTo linked (.start present acyclic) (by simp)

theorem outlines_root (linked : f.Linked) : f.Outlines (f.outline .root) :=
  outlines_outline linked (contains_root linked) (acyclic_root linked)

theorem eq_of_values_eq {ts us : List (Tree Key)} (values : ts.map Tree.value = us.map Tree.value)
    (decided : ∀ t ∈ ts, ∀ u ∈ us, t.value = u.value → t = u) : ts = us := by
  induction ts generalizing us with
  | nil =>
      cases us with
      | nil => rfl
      | cons u rest => cases values
  | cons t rest ih =>
      cases us with
      | nil => cases values
      | cons u rest' =>
          obtain ⟨here,later⟩ := List.cons.inj values
          rw [decided t List.mem_cons_self u List.mem_cons_self here,
            ih later fun t tListed u uListed => decided t (List.mem_cons_of_mem _ tListed) u (List.mem_cons_of_mem _ uListed)]

theorem Outlines.unique (one : f.Outlines t) (two : f.Outlines u) (same : t.value = u.value) : t = u := by
  induction one generalizing u with
  | node listed _ ih =>
      cases two with
      | node listed' below' =>
          cases same
          rw [eq_of_values_eq (listed.trans listed'.symm) fun t tListed u uListed => ih t tListed (below' u uListed)]

theorem within_of_mem_outlineTo (linked : f.Linked) {fuel : Nat} (member : key ∈ (f.outlineTo fuel top).preorder) :
    f.Within top key := by
  induction fuel generalizing top with
  | zero =>
      rw [outlineTo,Tree.preorder_node,List.flatMap_nil,List.mem_singleton] at member
      exact member ▸ .self
  | succ fuel ih =>
      rw [outlineTo,Tree.preorder_node,List.mem_cons,List.flatMap_map,List.mem_flatMap] at member
      rcases member with rfl | ⟨child,listed,inside⟩
      · exact .self
      · exact Within.trans (.child (linked.mem_children.mp listed) .self) (ih inside)

theorem Outlines.mem_preorder (linked : f.Linked) (outlines : f.Outlines t) : key ∈ t.preorder ↔ f.Within t.value key := by
  induction outlines with
  | @node top trees listed below ih =>
      rw [Tree.preorder_node,List.mem_cons,List.mem_flatMap]
      constructor
      · rintro (rfl | ⟨tree,member,inside⟩)
        · exact .self
        · have under : tree.value ∈ f.children top := listed ▸ List.mem_map_of_mem member
          exact Within.trans (.child (linked.mem_children.mp under) .self) ((ih tree member).mp inside)
      · intro inside
        rcases inside.down with rfl | ⟨child,under,inside⟩
        · exact .inl rfl
        · right
          have childListed : child ∈ f.children top := linked.mem_children.mpr under
          rw [← listed] at childListed
          obtain ⟨tree,member,rfl⟩ := List.mem_map.mp childListed
          exact ⟨tree,member,(ih tree member).mpr inside⟩

theorem Linked.mem_outline (linked : f.Linked) (present : f.Contains top) (acyclic : f.Acyclic top) :
    key ∈ (f.outline top).preorder ↔ f.Within top key := by
  rw [(outlines_outline linked present acyclic).mem_preorder linked,value_outline]

theorem Linked.mem_outline_root (linked : f.Linked) : key ∈ (f.outline .root).preorder ↔ f.Attached key :=
  linked.mem_outline (contains_root linked) (acyclic_root linked)

theorem Outlines.nodup_preorder (linked : f.Linked) (outlines : f.Outlines t) (acyclic : f.Acyclic t.value) :
    t.preorder.Nodup := by
  induction outlines with
  | @node top trees listed below ih =>
      have under : ∀ tree ∈ trees, (f.links tree.value).parent = some top := by
        intro tree member
        exact linked.mem_children.mp (listed ▸ List.mem_map_of_mem member)
      rw [Tree.preorder_node,List.nodup_cons,List.nodup_flatMap]
      refine ⟨?_,fun tree member => ih tree member (acyclic.of_parent (under tree member)),?_⟩
      · intro repeated
        obtain ⟨tree,member,inside⟩ := List.mem_flatMap.mp repeated
        have back := ((below tree member).mem_preorder linked).mp inside
        exact (acyclic.of_parent (under tree member)) ⟨top,under tree member,back⟩
      · have distinct := linked.nodup_children top
        rw [← listed] at distinct
        refine (List.pairwise_map.mp distinct).imp_of_mem ?_
        intro one two oneListed twoListed apart
        apply List.disjoint_left.mpr
        intro key inOne inTwo
        apply apart
        exact Within.same_child acyclic (under one oneListed) (under two twoListed)
          (((below one oneListed).mem_preorder linked).mp inOne) (((below two twoListed).mem_preorder linked).mp inTwo)

end BoxLayout.Forest
