import Mathlib.Data.List.Forall2
import BoxLayout.Tree

namespace BoxLayout.Tree

-- Induction over trees, and trees of one shape whose values correspond.

variable {α β γ : Type}

theorem related_of_mem {R : α → β → Prop} {xs : List α} {ys : List β} {y : β} (related : List.Forall₂ R xs ys)
    (member : y ∈ ys) : ∃ x ∈ xs, R x y := by
  induction related with
  | nil => cases member
  | cons one _ ih =>
      rcases List.mem_cons.mp member with rfl | later
      · exact ⟨_,List.mem_cons_self,one⟩
      · obtain ⟨x,inside,found⟩ := ih later
        exact ⟨x,List.mem_cons_of_mem _ inside,found⟩

@[induction_eliminator]
theorem induct {motive : Tree α → Prop}
    (node : ∀ value children, (∀ tree ∈ children, motive tree) → motive (.node value children))
    (tree : Tree α) : motive tree := by
  refine @Tree.rec α motive (fun trees => ∀ tree ∈ trees, motive tree) ?_ ?_ ?_ tree
  · exact node
  · intro tree member
    cases member
  · intro tree rest one others other member
    rcases List.mem_cons.mp member with rfl | later
    · exact one
    · exact others other later

theorem map_node (change : α → β) (value : α) (children : List (Tree α)) :
    (node value children).map change = .node (change value) (children.map (map change)) := by
  rw [map,mapAll_eq]

theorem preorder_node (value : α) (children : List (Tree α)) :
    (node value children).preorder = value :: children.flatMap preorder := by
  rw [preorder,preorderAll_eq]

theorem value_map (change : α → β) (tree : Tree α) : (tree.map change).value = change tree.value := by
  cases tree
  rw [map_node]
  rfl

theorem value_mem_preorder (tree : Tree α) : tree.value ∈ tree.preorder := by
  cases tree
  rw [preorder_node]
  exact List.mem_cons_self

theorem map_map (first : α → β) (second : β → γ) (tree : Tree α) :
    (tree.map first).map second = tree.map (second ∘ first) := by
  induction tree with
  | node value children ih =>
      simp only [map_node,List.map_map]
      congr 1
      exact List.map_congr_left ih

theorem map_id (tree : Tree α) : tree.map id = tree := by
  induction tree with
  | node value children ih =>
      rw [map_node,List.map_congr_left ih,List.map_id']
      rfl

theorem preorder_map (change : α → β) (tree : Tree α) : (tree.map change).preorder = tree.preorder.map change := by
  induction tree with
  | node value children ih =>
      simp only [map_node,preorder_node,List.map_cons,List.flatMap_map,List.map_flatMap]
      congr 1
      exact List.flatMap_congr ih

theorem away_of_disjoint {a : α} {before after : List (Tree α)} {tree : Tree α}
    (disjoint : (before ++ tree :: after).Pairwise (Function.onFun List.Disjoint preorder)) (inside : a ∈ tree.preorder) :
    ∀ other ∈ before ++ after, a ∉ other.preorder := by
  obtain ⟨_,later,earlier⟩ := List.pairwise_append.mp disjoint
  intro other member found
  rcases List.mem_append.mp member with first | second
  · exact earlier other first tree List.mem_cons_self found inside
  · exact (List.pairwise_cons.mp later).1 other second inside found

inductive Related (R : α → β → Prop) : Tree α → Tree β → Prop where
  | node {a : α} {b : β} {ts : List (Tree α)} {us : List (Tree β)} :
      R a b → List.Forall₂ (Related R) ts us → Related R (.node a ts) (.node b us)

namespace Related
variable {R S : α → β → Prop} {t : Tree α} {u : Tree β} {ts : List (Tree α)} {us : List (Tree β)}

theorem value (related : Related R t u) : R t.value u.value := by
  cases related with
  | node here _ => exact here

theorem values (related : List.Forall₂ (Related R) ts us) : List.Forall₂ R (ts.map Tree.value) (us.map Tree.value) := by
  induction related with
  | nil => exact .nil
  | cons one _ ih => exact .cons one.value ih

theorem imp (related : Related R t u) (stronger : ∀ a b, R a b → S a b) : Related S t u := by
  induction t generalizing u with
  | node value children ih =>
      cases related with
      | node here below =>
          exact .node (stronger _ _ here) ((List.forall₂_and_left _ _).mpr ⟨ih,below⟩ |>.imp fun _ _ both => both.1 both.2)

theorem refl {R : α → α → Prop} (each : ∀ a, R a a) (t : Tree α) : Related R t t := by
  induction t with
  | node value children ih => exact .node (each value) (List.forall₂_same.mpr ih)

theorem symm {S : β → α → Prop} (related : Related R t u) (turned : ∀ a b, R a b → S b a) : Related S u t := by
  induction t generalizing u with
  | node value children ih =>
      cases related with
      | node here below =>
          have flipped := (List.forall₂_and_left _ _).mpr ⟨ih,below⟩
          exact .node (turned _ _ here) (flipped.imp fun _ _ both => both.1 both.2).flip

theorem trans {S : β → γ → Prop} {U : α → γ → Prop} {v : Tree γ} (first : Related R t u) (second : Related S u v)
    (joined : ∀ a b c, R a b → S b c → U a c) : Related U t v := by
  induction t generalizing u v with
  | node value children ih =>
      cases first with
      | node here below =>
          cases second with
          | @node _ _ us vs there below' =>
              refine .node (joined _ _ _ here there) ?_
              clear here there
              induction below generalizing vs with
              | nil => cases below'; exact .nil
              | cons one _ rest =>
                  cases below' with
                  | cons one' rest' =>
                      exact .cons (ih _ List.mem_cons_self one one')
                        (rest (fun tree member => ih tree (List.mem_cons_of_mem _ member)) rest')

theorem both (first : Related R t u) (second : Related S t u) : Related (fun a b => R a b ∧ S a b) t u := by
  induction t generalizing u with
  | node value children ih =>
      cases first with
      | node here below =>
          cases second with
          | node there below' =>
              refine .node ⟨here,there⟩ ?_
              have each := (List.forall₂_and_left _ _).mpr ⟨ih,below⟩
              exact List.Forall₂.mp (fun _ _ one two => one.1 one.2 two) each below'

theorem eq {t u : Tree α} (related : Related Eq t u) : t = u := by
  induction t generalizing u with
  | node value children ih =>
      cases related with
      | node here below =>
          have same := ((List.forall₂_and_left _ _).mpr ⟨ih,below⟩).imp fun _ _ both => both.1 both.2
          rw [List.forall₂_eq_eq_eq] at same
          rw [here,same]

theorem preorder (related : Related R t u) : List.Forall₂ R t.preorder u.preorder := by
  induction t generalizing u with
  | node value children ih =>
      cases related with
      | node here below =>
          have each := ((List.forall₂_and_left _ _).mpr ⟨ih,below⟩).imp fun _ _ both => both.1 both.2
          rw [preorder_node,preorder_node]
          exact .cons here (List.rel_flatMap each fun _ _ one => one)

theorem all {P : α → Prop} {Q : β → Prop} (related : Related R t u) (each : ∀ a ∈ t.preorder, P a)
    (step : ∀ {a b}, R a b → P a → Q b) : ∀ b ∈ u.preorder, Q b := by
  intro b member
  obtain ⟨a,listed,one⟩ := related_of_mem related.preorder member
  exact step one (each a listed)

theorem of_rows {S : α → β → Prop} (shape : Related R t u) (rows : ∀ row ∈ t.preorder.zip u.preorder, S row.1 row.2) :
    Related S t u := by
  induction t generalizing u with
  | node value children ih =>
      cases shape with
      | node here below =>
          rw [preorder_node,preorder_node,List.zip_cons_cons] at rows
          refine .node (rows _ List.mem_cons_self) ?_
          replace rows := fun row member => rows row (List.mem_cons_of_mem _ member)
          clear here
          induction below with
          | nil => exact .nil
          | cons one _ more =>
              simp only [List.flatMap_cons,List.zip_append one.preorder.length_eq,List.mem_append] at rows
              exact .cons (ih _ List.mem_cons_self one fun row member => rows row (.inl member))
                (more (fun tree member => ih tree (List.mem_cons_of_mem _ member)) fun row member => rows row (.inr member))

theorem maps {t : Tree γ} {first : γ → α} {second : γ → β} :
    Related R (t.map first) (t.map second) ↔ ∀ c ∈ t.preorder, R (first c) (second c) := by
  constructor
  · intro related
    have rows := related.preorder
    rw [preorder_map,preorder_map,List.forall₂_map_left_iff,List.forall₂_map_right_iff,List.forall₂_same] at rows
    exact rows
  · intro each
    induction t with
    | node value children ih =>
        rw [preorder_node] at each
        rw [map_node,map_node]
        refine .node (each _ List.mem_cons_self) ?_
        rw [List.forall₂_map_left_iff,List.forall₂_map_right_iff,List.forall₂_same]
        intro tree member
        exact ih tree member fun c inside =>
          each c (List.mem_cons_of_mem _ (List.mem_flatMap.mpr ⟨tree,member,inside⟩))

theorem map_eq {change : α → β} (related : Related (fun a b => change a = b) t u) : t.map change = u := by
  induction t generalizing u with
  | node value children ih =>
      cases related with
      | node here below =>
          have each := ((List.forall₂_and_left _ _).mpr ⟨ih,below⟩).imp fun _ _ both => both.1 both.2
          have same := List.forall₂_map_left_iff.mpr each
          rw [List.forall₂_eq_eq_eq] at same
          rw [map_node,here,same]

theorem of_map_eq {first : α → γ} {second : β → γ} (same : t.map first = u.map second) :
    Related (fun a b => first a = second b) t u := by
  induction t generalizing u with
  | node value children ih =>
      obtain ⟨value',children'⟩ := u
      rw [map_node,map_node,node.injEq] at same
      obtain ⟨here,below⟩ := same
      rw [← List.forall₂_eq_eq_eq,List.forall₂_map_left_iff,List.forall₂_map_right_iff] at below
      exact .node here (((List.forall₂_and_left _ _).mpr ⟨ih,below⟩).imp fun _ _ both => both.1 both.2)

end Related

theorem map_eq_map_iff {t : Tree α} {first second : α → β} : t.map first = t.map second ↔
    ∀ a ∈ t.preorder, first a = second a := by
  rw [← Related.maps]
  constructor
  · intro same
    rw [same]
    exact .refl (fun _ => rfl) _
  · exact Related.eq

inductive Each (P : α → List α → Prop) : Tree α → Prop where
  | node {a : α} {ts : List (Tree α)} : P a (ts.map value) → (∀ t ∈ ts, Each P t) → Each P (.node a ts)

namespace Each
variable {P : α → List α → Prop} {Q : β → List β → Prop} {R : α → β → Prop} {t : Tree α} {u : Tree β}

theorem of_all {Q : α → Prop} (all : ∀ a ∈ t.preorder, Q a) (enough : ∀ a as, (∀ c ∈ as, Q c) → P a as) : Each P t := by
  induction t with
  | node value children ih =>
      rw [preorder_node] at all
      have below : ∀ tree ∈ children, ∀ a ∈ tree.preorder, Q a := fun tree member a inside =>
        all a (List.mem_cons_of_mem _ (List.mem_flatMap.mpr ⟨tree,member,inside⟩))
      refine .node (enough _ _ ?_) fun tree member => ih tree member (below tree member)
      intro c member
      obtain ⟨tree,listed,rfl⟩ := List.mem_map.mp member
      exact below tree listed _ tree.value_mem_preorder

theorem transfer (each : Each P t) (related : Related R t u)
    (step : ∀ {a b as bs}, R a b → List.Forall₂ R as bs → P a as → Q b bs) : Each Q u := by
  induction each generalizing u with
  | @node a ts here _ ih =>
      cases related with
      | @node _ b _ us one below =>
          refine .node (step one (Related.values below) here) ?_
          intro tree member
          obtain ⟨tree',member',same⟩ := related_of_mem below member
          exact ih tree' member' same

end Each
end BoxLayout.Tree
