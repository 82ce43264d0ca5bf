import BoxLayout.Proofs.Forest.Children
import BoxLayout.Proofs.Snapshot.Keys

namespace BoxLayout
namespace Forest

-- What the nodes of a snapshot attach: each its own control, below the parent it
-- names and behind the children that are there.

variable {f g h : Forest} {key parent child anchor : Key} {before : List Key} {node : Node} {nodes : List Node}

theorem checkInsertable_of (present : f.Contains child) (notRoot : child ≠ .root) (free : (f.links child).parent = none) :
    f.checkInsertable child = .ok () := by
  obtain ⟨control,found⟩ := controls_of_contains present
  have links : f.links child = control.links := by simp only [links,found]
  have find : f.find child = .ok control := by simp only [Forest.find,found]
  unfold checkInsertable
  rw [find,Result.ok_bind]
  dsimp only
  rw [if_neg notRoot,← links,free]
  rfl

theorem checkAnchor_of (present : f.Contains anchor) (insertable : f.checkInsertable child = .ok ())
    (apart : anchor ≠ child) (under : (f.links anchor).parent = some parent) : f.checkAnchor anchor child = .ok parent := by
  unfold checkAnchor
  rw [validate_of_contains present,Result.ok_bind,insertable,Result.ok_bind]
  dsimp only
  rw [if_neg apart,under]
  rfl

structure Appendable (f : Forest) (parent child : Key) : Prop where
  parent_present : f.Contains parent
  child_present : f.Contains child
  child_not_root : child ≠ .root
  free : (f.links child).parent = none
  apart : parent ≠ child

theorem Appendable.spliceable (linked : f.Linked) (ready : f.Appendable parent child) :
    f.Spliceable parent (f.children parent) [] child where
  parent_present := ready.parent_present
  child_present := ready.child_present
  child_not_root := ready.child_not_root
  free := ready.free
  siblings := by
    rw [List.append_nil]
    exact linked.siblings_children ready.parent_present

theorem insertAtEnd_of (linked : f.Linked) (ready : f.Appendable parent child) :
    ∃ g, f.insertAtEnd parent child = .ok g := by
  have insertable := checkInsertable_of ready.child_present ready.child_not_root ready.free
  have siblings := linked.siblings_children ready.parent_present
  unfold insertAtEnd
  rw [validate_of_contains ready.parent_present,Result.ok_bind,insertable,Result.ok_bind]
  dsimp only
  rw [if_neg ready.apart]
  split
  · rename_i last lastAt
    have listed : last ∈ f.children parent := List.mem_of_getLast? (siblings.last ▸ lastAt)
    have under := (siblings.members last).mp listed
    have apart : last ≠ child := by
      rintro rfl
      rw [ready.free] at under
      cases under
    have anchored := checkAnchor_of (contains_of_parent under) insertable apart under
    exact ⟨_,by rw [insertAfter,anchored,Result.ok_bind]; rfl⟩
  · exact ⟨_,rfl⟩

theorem insertAtEnd_ok (linked : f.Linked) : f.insertAtEnd parent child = .ok g ↔
    f.Appendable parent child ∧ g = f.spliced parent (f.children parent) [] child := by
  have onward : ∀ {g}, f.insertAtEnd parent child = .ok g →
      f.Appendable parent child ∧ g = f.spliced parent (f.children parent) [] child := by
    intro g done
    obtain ⟨keys,ready,rfl⟩ := insertAtEnd_spliced linked done
    have listed : f.children parent = keys := by
      rw [ready.siblings.children_eq,List.append_nil]
    have apart : parent ≠ child := by
      obtain ⟨_,_,done⟩ := Result.bind_ok.mp done
      obtain ⟨_,_,done⟩ := Result.bind_ok.mp done
      dsimp only at done
      split at done
      · cases done
      · assumption
    exact ⟨⟨ready.parent_present,ready.child_present,ready.child_not_root,ready.free,apart⟩,by rw [listed]⟩
  refine ⟨onward,fun ⟨ready,equal⟩ => ?_⟩
  obtain ⟨g',done⟩ := insertAtEnd_of linked ready
  rw [equal,done,(onward done).2]

theorem children_spliced (linked : f.Linked) (ready : f.Spliceable parent before [] child) (key : Key) :
    (f.spliced parent before [] child).children key = f.children key ++ (if parent = key then [child] else []) := by
  by_cases same : parent = key
  · subst key
    rw [if_pos rfl,ready.siblings.children_eq,ready.siblings_parent.children_eq,List.append_nil]
  · rw [if_neg same,List.append_nil]
    by_cases present : f.Contains key
    · exact (ready.siblings_other (Ne.symm same) (linked.siblings_children present)).children_eq
    · rw [children_of_missing present,children_of_missing (contains_spliced.not.mpr present)]

end Forest

open Forest

def Node.Placeable (f : Forest) (node : Node) : Prop :=
  ∀ parent, node.parent? = some parent → f.Contains parent ∧ node.handle ≠ .root ∧ parent ≠ node.handle

structure Attachment (f : Forest) (nodes : List Node) (g : Forest) : Prop where
  linked : g.Linked
  size_eq : g.size = f.size
  box_eq : ∀ key, g.box key = f.box key
  tag_eq : ∀ key, g.tag key = f.tag key
  parent : ∀ node ∈ nodes, (g.links node.handle).parent = node.parent?
  other : ∀ key, key ∉ nodes.map Node.handle → (g.links key).parent = (f.links key).parent
  children : ∀ key, g.children key =
    f.children key ++ (nodes.filter fun node => node.parent? = some key).map Node.handle

namespace Attachment
variable {f g h : Forest} {node : Node} {nodes : List Node}

theorem none (linked : f.Linked) : Attachment f [] f where
  linked := linked
  size_eq := rfl
  box_eq _ := rfl
  tag_eq _ := rfl
  parent _ member := absurd member List.not_mem_nil
  other _ _ := rfl
  children key := by simp

theorem cons (first : Attachment f [node] g) (rest : Attachment g nodes h) (apart : node.handle ∉ nodes.map Node.handle) :
    Attachment f (node :: nodes) h where
  linked := rest.linked
  size_eq := rest.size_eq.trans first.size_eq
  box_eq key := (rest.box_eq key).trans (first.box_eq key)
  tag_eq key := (rest.tag_eq key).trans (first.tag_eq key)
  parent other member := by
    rcases List.mem_cons.mp member with rfl | later
    · rw [rest.other _ apart]
      exact first.parent _ (List.mem_singleton_self _)
    · exact rest.parent other later
  other key elsewhere := by
    rw [List.map_cons,List.mem_cons,not_or] at elsewhere
    rw [rest.other key elsewhere.2]
    exact first.other key (by simpa using elsewhere.1)
  children key := by
    rw [rest.children,first.children,List.append_assoc,← List.map_append,← List.filter_append]
    rfl

end Attachment

namespace Node
variable {f g : Forest} {node : Node} {nodes : List Node}

theorem attach_eq (node : Node) (f : Forest) : node.attach f =
    match node.parent? with
    | some parent => f.insertAtEnd parent node.handle
    | none => .ok f := rfl

theorem attach_ok (linked : f.Linked) (present : f.Contains node.handle) (free : (f.links node.handle).parent = none) :
    (∃ g, node.attach f = .ok g) ↔ node.Placeable f := by
  rw [attach_eq,Placeable]
  cases node.parent? with
  | none => exact ⟨fun _ => nofun,fun _ => ⟨f,rfl⟩⟩
  | some parent =>
      constructor
      · rintro ⟨g,done⟩ _ ⟨⟩
        obtain ⟨ready,_⟩ := (insertAtEnd_ok linked).mp done
        exact ⟨ready.parent_present,ready.child_not_root,ready.apart⟩
      · intro placeable
        obtain ⟨there,notRoot,apart⟩ := placeable parent rfl
        exact insertAtEnd_of linked ⟨there,present,notRoot,free,apart⟩

theorem attach_attachment (linked : f.Linked) (free : (f.links node.handle).parent = none) (done : node.attach f = .ok g) :
    Attachment f [node] g := by
  rw [attach_eq] at done
  cases named : node.parent? with
  | none =>
      rw [named] at done
      cases done
      refine ⟨linked,rfl,fun _ => rfl,fun _ => rfl,?_,fun _ _ => rfl,?_⟩
      · intro other member
        rw [List.mem_singleton.mp member,free,named]
      · intro key
        simp [named]
  | some parent =>
      rw [named] at done
      obtain ⟨ready,rfl⟩ := (insertAtEnd_ok linked).mp done
      have splice := ready.spliceable linked
      refine ⟨splice.linked linked,size_splice ..,fun _ => box_splice ..,fun _ => tag_splice ..,?_,?_,?_⟩
      · intro other member
        rw [List.mem_singleton.mp member,splice.links_eq,named]
        exact if_pos rfl
      · intro key elsewhere
        rw [splice.links_eq]
        refine if_neg ?_
        rintro rfl
        exact elsewhere (List.mem_singleton_self _)
      · intro key
        rw [children_spliced linked splice,List.filter_singleton,named]
        by_cases same : parent = key
        · simp [same]
        · simp [same]

theorem attachAll_ok (linked : f.Linked) (present : ∀ node ∈ nodes, f.Contains node.handle)
    (distinct : (nodes.map Node.handle).Nodup) (free : ∀ node ∈ nodes, (f.links node.handle).parent = none) :
    ((∃ g, nodes.foldlM attach f = .ok g) ↔ ∀ node ∈ nodes, node.Placeable f) ∧
      ∀ g, nodes.foldlM attach f = .ok g → Attachment f nodes g := by
  induction nodes generalizing f with
  | nil =>
      refine ⟨⟨fun _ _ member => absurd member List.not_mem_nil,fun _ => ⟨f,rfl⟩⟩,?_⟩
      intro g done
      cases done
      exact .none linked
  | cons node rest ih =>
      rw [List.map_cons,List.nodup_cons] at distinct
      have here := present node List.mem_cons_self
      have bare := free node List.mem_cons_self
      have step := attach_ok linked here bare
      have onward : ∀ g, node.attach f = .ok g →
          ((∃ h, rest.foldlM attach g = .ok h) ↔ ∀ node ∈ rest, node.Placeable f) ∧
            ∀ h, rest.foldlM attach g = .ok h → Attachment f (node :: rest) h := by
        intro g done
        have first := attach_attachment linked bare done
        have same : ∀ key, g.Contains key ↔ f.Contains key := fun key => by simp only [Contains,first.size_eq]
        have still : ∀ other ∈ rest, (g.links other.handle).parent = none := by
          intro other later
          have apart : other.handle ∉ [node].map Node.handle := fun equal =>
            distinct.1 (List.mem_singleton.mp equal ▸ List.mem_map_of_mem later)
          rw [first.other _ apart]
          exact free other (List.mem_cons_of_mem _ later)
        obtain ⟨accepted,attached⟩ := ih first.linked
          (fun other later => (same _).mpr (present other (List.mem_cons_of_mem _ later))) distinct.2 still
        simp only [Placeable,same] at accepted
        exact ⟨accepted,fun h more => first.cons (attached h more) distinct.1⟩
      constructor
      · rw [List.forall_mem_cons,← step]
        constructor
        · rintro ⟨h,done⟩
          rw [List.foldlM_cons,Result.bind_ok] at done
          obtain ⟨g,one,more⟩ := done
          exact ⟨⟨g,one⟩,(onward g one).1.mp ⟨h,more⟩⟩
        · rintro ⟨⟨g,one⟩,others⟩
          obtain ⟨h,more⟩ := (onward g one).1.mpr others
          exact ⟨h,by rw [List.foldlM_cons,one]; exact more⟩
      · intro h done
        rw [List.foldlM_cons,Result.bind_ok] at done
        obtain ⟨g,one,more⟩ := done
        exact (onward g one).2 h more

end Node
end BoxLayout
