import BoxLayout.Proofs.Forest.Subtree
import BoxLayout.Proofs.Program.Drawing

namespace BoxLayout.Forest

-- The ways down from the root, and the tree they make out.

variable {f g : Forest} {above way : List Key} {key parent : Key} {t : Tree Key}

inductive Way (f : Forest) : List Key → Key → Prop where
  | root : Way f [] .root
  | child {above : List Key} {parent key : Key} : f.Way above parent → (f.links key).parent = some parent →
      f.Way (above ++ [key]) key

def comesLast (f : Forest) (key : Key) : Bool := (f.links key).nextSibling.isNone

theorem comesLast_iff : f.comesLast key = true ↔ (f.links key).nextSibling = none := Option.isNone_iff_eq_none

theorem comesLast_false_iff : f.comesLast key = false ↔ (f.links key).nextSibling ≠ none := by
  rw [← Bool.not_eq_true,comesLast_iff]

theorem Way.attached (path : f.Way way key) : f.Attached key := by
  induction path with
  | root => exact .self
  | child _ under ih => exact .child under ih

theorem Way.getLast? (linked : f.Linked) (path : f.Way way key) : way.getLast? = if key = .root then none else some key := by
  cases path with
  | root => rfl
  | child _ under => rw [List.getLast?_concat,if_neg (linked.ne_root under)]

theorem Outlines.ways (linked : f.Linked) (outlines : f.Outlines t) (path : f.Way above t.value) :
    ∀ row ∈ t.placed (above.map f.comesLast), ∃ way, f.Way way row.2 ∧ way.map f.comesLast = row.1 := by
  induction outlines generalizing above with
  | @node top trees values _ ih =>
      intro row member
      rw [Tree.placed,List.mem_cons] at member
      rcases member with rfl | deeper
      · exact ⟨above,path,rfl⟩
      · obtain ⟨before,tree,after,rfl,inside⟩ := Tree.mem_placedAll deeper
        have siblings : f.Siblings top (f.children top) := linked.siblings_children (linked.contains_attached path.attached)
        rw [← values,List.map_append,List.map_cons] at siblings
        have under := (siblings.members tree.value).mp (by simp)
        have last : f.comesLast tree.value = after.isEmpty := by
          rw [comesLast,siblings.next_eq]
          cases after <;> rfl
        refine ih tree (by simp) (path.child under) row ?_
        rwa [List.map_append,List.map_singleton,last]

theorem Outlines.children_eq (one : f.Outlines t) (two : g.Outlines t) (member : key ∈ t.preorder) :
    g.children key = f.children key := by
  induction one with
  | @node top trees values _ ih =>
      cases two with
      | node values' below' =>
          rw [Tree.preorder_node,List.mem_cons,List.mem_flatMap] at member
          rcases member with rfl | ⟨tree,listed,inside⟩
          · exact values'.symm.trans values
          · exact ih tree listed (below' tree listed) inside

def SameTree (f g : Forest) : Prop :=
  ∀ key, (g.Attached key ↔ f.Attached key) ∧
    (f.Attached key → (g.links key).parent = (f.links key).parent ∧ g.children key = f.children key)

theorem sameTree_of_outline (here : f.Linked) (there : g.Linked) (same : g.outline .root = f.outline .root) : f.SameTree g := by
  have children : ∀ {key}, f.Attached key → g.children key = f.children key := fun attached =>
    (outlines_root here).children_eq (same ▸ outlines_root there) (here.mem_outline_root.mpr attached)
  intro key
  constructor
  · rw [← here.mem_outline_root,← there.mem_outline_root,same]
  · intro attached
    refine ⟨?_,children attached⟩
    cases attached with
    | self => rw [here.root_free,there.root_free]
    | @child _ parent under above =>
        rw [under]
        exact there.mem_children.mp (children above ▸ here.mem_children.mpr under)

theorem Linked.lastChild_iff (linked : f.Linked) (under : (f.links key).parent = some parent) :
    (f.links parent).lastChild = some key ↔ (f.links key).nextSibling = none := by
  have siblings := linked.siblings_children (linked.named_present key parent (.inl under))
  obtain ⟨before,after,cut⟩ := List.append_of_mem (linked.mem_children.mpr under)
  rw [cut] at siblings
  rw [siblings.next_eq]
  constructor
  · intro last
    rw [siblings.nothing_after last]
    rfl
  · intro ended
    rw [siblings.last,List.head?_eq_none_iff.mp ended,List.getLast?_concat]

theorem Linked.ends_family_iff (linked : f.Linked) (attached : f.Attached key) :
    key ≠ .root ∧ (f.links key).nextSibling = none ↔
      ∃ parent, (f.links key).parent = some parent ∧ (f.links parent).lastChild = some key := by
  constructor
  · rintro ⟨below,ended⟩
    cases attached with
    | self => exact absurd rfl below
    | child under _ => exact ⟨_,under,(linked.lastChild_iff under).mpr ended⟩
  · rintro ⟨parent,under,last⟩
    exact ⟨linked.ne_root under,(linked.lastChild_iff under).mp last⟩

end BoxLayout.Forest
