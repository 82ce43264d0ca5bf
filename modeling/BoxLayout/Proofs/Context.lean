import BoxLayout.Proofs.Tree

namespace BoxLayout.Tree

-- Trees with one subtree left open.

inductive Context (α : Type) where
  | last (value : α) (before after : List (Tree α))
  | step (value : α) (before : List (Tree α)) (inner : Context α) (after : List (Tree α))

namespace Context
variable {α β : Type}

def fill : Context α → Tree α → Tree α
  | last value before after,tree => .node value (before ++ tree :: after)
  | step value before inner after,tree => .node value (before ++ inner.fill tree :: after)

def value : Context α → α
  | last value _ _ => value
  | step value _ _ _ => value

def holder : Context α → α
  | last value _ _ => value
  | step _ _ inner _ => inner.holder

def path : Context α → List Nat
  | last _ before _ => [before.length]
  | step _ before inner _ => before.length :: inner.path

def map (change : α → β) : Context α → Context β
  | last value before after => last (change value) (before.map (Tree.map change)) (after.map (Tree.map change))
  | step value before inner after =>
      step (change value) (before.map (Tree.map change)) (inner.map change) (after.map (Tree.map change))

def values : Context α → List α
  | last value before after => value :: (before ++ after).flatMap preorder
  | step value before inner after => value :: inner.values ++ (before ++ after).flatMap preorder

variable {K L : Context α} {t u : Tree α} {a : α} {first second : α → β}

theorem value_fill (K : Context α) (t : Tree α) : (K.fill t).value = K.value := by
  cases K <;> rfl

theorem map_fill (change : α → β) (K : Context α) (t : Tree α) : (K.fill t).map change = (K.map change).fill (t.map change) := by
  induction K with
  | last value before after => rw [fill,map,fill,map_node,List.map_append,List.map_cons]
  | step value before inner after ih => rw [fill,map,fill,map_node,List.map_append,List.map_cons,ih]

theorem path_map (change : α → β) (K : Context α) : (K.map change).path = K.path := by
  induction K with
  | last value before after => rw [map,path,path,List.length_map]
  | step value before inner after ih => rw [map,path,path,List.length_map,ih]

theorem holder_map (change : α → β) (K : Context α) : (K.map change).holder = change K.holder := by
  induction K with
  | last value before after => rfl
  | step value before inner after ih => exact ih

theorem path_ne_nil (K : Context α) : K.path ≠ [] := by
  cases K <;> exact List.cons_ne_nil _ _

theorem fill_injective (same : K.path = L.path) (filled : K.fill t = L.fill u) : K = L ∧ t = u := by
  induction K generalizing L with
  | last value before after =>
      cases L with
      | last value' before' after' =>
          obtain ⟨here,below⟩ := Tree.node.inj filled
          obtain ⟨one,two⟩ := List.append_inj below (List.cons.inj same).1
          obtain ⟨open',two⟩ := List.cons.inj two
          exact ⟨by rw [here,one,two],open'⟩
      | step value' before' inner' after' => exact absurd (List.cons.inj same).2.symm inner'.path_ne_nil
  | step value before inner after ih =>
      cases L with
      | last value' before' after' => exact absurd (List.cons.inj same).2 inner.path_ne_nil
      | step value' before' inner' after' =>
          obtain ⟨size,deeper⟩ := List.cons.inj same
          obtain ⟨here,below⟩ := Tree.node.inj filled
          obtain ⟨one,two⟩ := List.append_inj below size
          obtain ⟨filled',two⟩ := List.cons.inj two
          obtain ⟨inner,open'⟩ := ih deeper filled'
          exact ⟨by rw [here,one,two,inner],open'⟩

theorem mem_fill : a ∈ (K.fill t).preorder ↔ a ∈ K.values ∨ a ∈ t.preorder := by
  induction K with
  | last value before after =>
      simp only [fill,values,preorder_node,List.mem_cons,List.flatMap_append,List.flatMap_cons,List.mem_append]
      tauto
  | step value before inner after ih =>
      simp only [fill,values,preorder_node,List.mem_cons,List.flatMap_append,List.flatMap_cons,List.mem_append,ih,
        List.cons_append]
      tauto

theorem map_eq_map_iff : K.map first = K.map second ↔ ∀ a ∈ K.values, first a = second a := by
  have beside : ∀ trees : List (Tree α), trees.map (Tree.map first) = trees.map (Tree.map second) ↔
      ∀ a ∈ trees.flatMap preorder, first a = second a := by
    intro trees
    simp only [List.map_inj_left,Tree.map_eq_map_iff,List.mem_flatMap]
    exact ⟨fun each a ⟨tree,listed,member⟩ => each tree listed a member,fun all tree listed a member => all a ⟨tree,listed,member⟩⟩
  induction K with
  | last value before after =>
      simp only [map,values,last.injEq,beside,List.flatMap_append,List.forall_mem_cons,List.forall_mem_append]
  | step value before inner after ih =>
      simp only [map,values,step.injEq,beside,ih,List.flatMap_append,List.forall_mem_cons,List.forall_mem_append,
        List.cons_append]
      tauto

end Context
end BoxLayout.Tree
