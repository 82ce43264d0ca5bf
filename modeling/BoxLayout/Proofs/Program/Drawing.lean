import BoxLayout.Program.Drawing
import BoxLayout.Proofs.Tree

namespace BoxLayout

-- Drawings of trees and what can be told from them.

namespace Tree
variable {α β : Type}

mutual
def placed (lasts : List Bool) : Tree α → List (List Bool × α)
  | .node value children => (lasts,value) :: placedAll lasts children
def placedAll (lasts : List Bool) : List (Tree α) → List (List Bool × α)
  | [] => []
  | tree :: rest => placed (lasts ++ [rest.isEmpty]) tree ++ placedAll lasts rest
end

mutual
theorem placed_values (lasts : List Bool) : (tree : Tree α) → (tree.placed lasts).map Prod.snd = tree.preorder
  | .node value children => by rw [placed,preorder,List.map_cons,placedAll_values lasts children]
theorem placedAll_values (lasts : List Bool) :
    (trees : List (Tree α)) → (placedAll lasts trees).map Prod.snd = preorderAll trees
  | [] => rfl
  | tree :: rest => by
      rw [placedAll,preorderAll,List.map_append,placed_values _ tree,placedAll_values lasts rest]
end

mutual
theorem placed_map (change : α → β) (lasts : List Bool) :
    (tree : Tree α) → (tree.map change).placed lasts = (tree.placed lasts).map (Prod.map id change)
  | .node value children => by
      rw [map,placed,placed,List.map_cons,placedAll_map change lasts children]
      rfl
theorem placedAll_map (change : α → β) (lasts : List Bool) :
    (trees : List (Tree α)) → placedAll lasts (mapAll change trees) = (placedAll lasts trees).map (Prod.map id change)
  | [] => rfl
  | tree :: rest => by
      rw [mapAll,placedAll,placedAll,List.map_append,placed_map change _ tree,placedAll_map change lasts rest,mapAll_eq,
        List.isEmpty_map]
end

theorem mem_placedAll {lasts : List Bool} {trees : List (Tree α)} {row : List Bool × α}
    (member : row ∈ placedAll lasts trees) :
    ∃ before tree after, trees = before ++ tree :: after ∧ row ∈ tree.placed (lasts ++ [after.isEmpty]) := by
  induction trees with
  | nil => cases member
  | cons tree rest ih =>
      rw [placedAll,List.mem_append] at member
      rcases member with here | later
      · exact ⟨[],tree,rest,rfl,here⟩
      · obtain ⟨before,other,after,cut,inside⟩ := ih later
        exact ⟨tree :: before,other,after,congrArg (tree :: ·) cut,inside⟩

def hang (row : Nat × α) (trees : List (Nat × Tree α)) : List (Nat × Tree α) :=
  (row.1,.node row.2 ((trees.takeWhile fun other => row.1 < other.1).map Prod.snd)) ::
    trees.dropWhile fun other => row.1 < other.1

def ofRows? (rows : List (Nat × α)) : Option (Tree α) :=
  match rows.foldr hang [] with
  | [(_,tree)] => some tree
  | _ => none

theorem hang_children {depth : Nat} {value : α} {children : List (Tree α)} {trees : List (Nat × Tree α)}
    (shallow : ∀ tree ∈ trees.head?, tree.1 ≤ depth) :
    hang (depth,value) (children.map (fun child => (depth + 1,child)) ++ trees) = (depth,.node value children) :: trees := by
  have deeper : ∀ other ∈ children.map fun child => (depth + 1,child), decide (depth < other.1) = true := by
    intro other member
    obtain ⟨_,_,rfl⟩ := List.mem_map.mp member
    exact decide_eq_true (Nat.lt_succ_self depth)
  have stops : (trees.takeWhile fun other => depth < other.1) = [] ∧
      (trees.dropWhile fun other => depth < other.1) = trees := by
    cases trees with
    | nil => exact ⟨rfl,rfl⟩
    | cons tree rest =>
        have no : decide (depth < tree.1) = false := decide_eq_false (Nat.not_lt_of_le (shallow tree rfl))
        simp only [List.takeWhile_cons,List.dropWhile_cons,no]
        exact ⟨rfl,rfl⟩
  unfold hang
  rw [List.takeWhile_append_of_pos deeper,List.dropWhile_append_of_pos deeper,stops.1,stops.2,List.append_nil,List.map_map]
  exact congrArg (fun below => (depth,Tree.node value below) :: trees) (List.map_id' children)

def depthOf (row : List Bool × α) : Nat × α := (row.1.length,row.2)

mutual
theorem foldr_placed (lasts : List Bool) (trees : List (Nat × Tree α))
    (shallow : ∀ tree ∈ trees.head?, tree.1 ≤ lasts.length) :
    (tree : Tree α) → ((tree.placed lasts).map depthOf).foldr hang trees = (lasts.length,tree) :: trees
  | .node value children => by
      have below := foldr_placedAll lasts trees (fun tree first => Nat.le_succ_of_le (shallow tree first)) children
      rw [placed,List.map_cons,List.foldr_cons,below]
      exact hang_children shallow
theorem foldr_placedAll (lasts : List Bool) (trees : List (Nat × Tree α))
    (shallow : ∀ tree ∈ trees.head?, tree.1 ≤ lasts.length + 1) :
    (children : List (Tree α)) → ((placedAll lasts children).map depthOf).foldr hang trees =
      children.map (fun child => (lasts.length + 1,child)) ++ trees
  | [] => rfl
  | tree :: rest => by
      have beside : ∀ other ∈ (rest.map (fun child => (lasts.length + 1,child)) ++ trees).head?,
          other.1 ≤ (lasts ++ [rest.isEmpty]).length := by
        rw [List.length_append]
        cases rest with
        | nil => exact shallow
        | cons sibling later =>
            rintro other first
            cases first
            exact Nat.le_refl _
      rw [placedAll,List.map_append,List.foldr_append,foldr_placedAll lasts trees shallow rest,
        foldr_placed _ _ beside tree,List.length_append]
      rfl
end

theorem ofRows?_placed (tree : Tree α) : ofRows? ((tree.placed []).map depthOf) = some tree := by
  rw [ofRows?,foldr_placed [] [] nofun tree]

end Tree

namespace Drawing

def lead (lasts : List Bool) : List Char :=
  lasts.dropLast.flatMap column ++ (lasts.getLast?.elim [] branch)

theorem lead_concat (lasts : List Bool) (last : Bool) : lead (lasts ++ [last]) = lasts.flatMap column ++ branch last := by
  rw [lead,List.dropLast_concat,List.getLast?_concat]
  rfl

mutual
theorem below_eq (lasts : List Bool) (last : Bool) : (tree : Tree (List Char)) →
    below (lasts.flatMap column) last tree = (tree.placed (lasts ++ [last])).map fun row => lead row.1 ++ row.2
  | .node label children => by
      have deeper : lasts.flatMap column ++ column last = (lasts ++ [last]).flatMap column := by
        rw [List.flatMap_append,List.flatMap_singleton]
      rw [below,Tree.placed,List.map_cons,lead_concat,deeper,allBelow_eq (lasts ++ [last]) children]
theorem allBelow_eq (lasts : List Bool) : (trees : List (Tree (List Char))) →
    allBelow (lasts.flatMap column) trees = (Tree.placedAll lasts trees).map fun row => lead row.1 ++ row.2
  | [] => rfl
  | tree :: rest => by
      rw [allBelow,Tree.placedAll,List.map_append,below_eq lasts rest.isEmpty tree,allBelow_eq lasts rest]
end

theorem lines_eq (tree : Tree (List Char)) : lines tree = (tree.placed []).map fun row => lead row.1 ++ row.2 := by
  cases tree with
  | node label children =>
      rw [lines,Tree.placed,List.map_cons]
      exact congrArg (label :: ·) (allBelow_eq [] children)

theorem length_branch (last : Bool) : (branch last).length = 4 := by cases last <;> rfl

theorem branch_injective : Function.Injective branch := by
  intro last other same
  cases last <;> cases other <;> first | rfl | cases same

theorem length_columns (lasts : List Bool) : (lasts.flatMap column).length = 4 * lasts.length := by
  induction lasts with
  | nil => rfl
  | cons last rest ih =>
      rw [List.flatMap_cons,List.length_append,ih,List.length_cons]
      cases last <;> simp [column] <;> omega

theorem length_lead (lasts : List Bool) : (lead lasts).length = 4 * lasts.length := by
  rcases List.eq_nil_or_concat lasts with rfl | ⟨before,last,rfl⟩
  · rfl
  · rw [List.concat_eq_append,lead_concat,List.length_append,length_columns,length_branch,List.length_append]
    rfl

-- The branch tells the last step down.
theorem branch_suffix_lead {lasts : List Bool} {last : Bool} : branch last <:+ lead lasts ↔ lasts.getLast? = some last := by
  rcases List.eq_nil_or_concat lasts with rfl | ⟨before,drawn,rfl⟩
  · cases last <;> decide
  · rw [List.concat_eq_append,lead_concat,List.getLast?_concat,Option.some.injEq]
    constructor
    · intro suffix
      have even : (branch last).length = (branch drawn).length := (length_branch last).trans (length_branch drawn).symm
      have same := (List.suffix_of_suffix_length_le suffix (List.suffix_append ..) (Nat.le_of_eq even)).eq_of_length even
      exact (branch_injective same).symm
    · rintro rfl
      exact List.suffix_append ..

-- And the bars tell the steps before it.
theorem bar_lead {lasts : List Bool} {i : Nat} :
    (lead lasts)[i]? = some '│' ↔ ∃ n, i = 4 * n ∧ lasts.dropLast[n]? = some false := by
  have barless : '│' ∉ lasts.getLast?.elim [] branch := by
    cases lasts.getLast? with
    | none => exact nofun
    | some last => cases last <;> decide
  unfold lead
  generalize lasts.getLast?.elim [] branch = rest at barless ⊢
  induction lasts.dropLast generalizing i with
  | nil =>
      constructor
      · intro bar
        exact absurd (List.mem_of_getElem? bar) barless
      · rintro ⟨_,_,missing⟩
        cases missing
  | cons last columns ih =>
      rw [List.flatMap_cons,List.append_assoc]
      match i with
      | 0 =>
          constructor
          · intro bar
            cases last with
            | false => exact ⟨0,rfl,rfl⟩
            | true => exact absurd bar (by simp [column])
          · rintro ⟨n,place,found⟩
            obtain rfl : n = 0 := by omega
            cases found
            rfl
      | 1 | 2 | 3 => cases last <;> simp [column] <;> omega
      | i + 4 =>
          have shift : (column last ++ (columns.flatMap column ++ rest))[i + 4]? = (columns.flatMap column ++ rest)[i]? := by
            cases last <;> rfl
          rw [shift]
          refine ih.trans ?_
          constructor
          · rintro ⟨n,rfl,found⟩
            exact ⟨n + 1,rfl,found⟩
          · rintro ⟨n,place,found⟩
            cases n with
            | zero => cases place
            | succ n => exact ⟨n,by omega,found⟩

def strokes : List Char := [' ','│','├','└','─']

theorem lead_subset (lasts : List Bool) : lead lasts ⊆ strokes := by
  have columns : ∀ last, column last ⊆ strokes := by
    intro last
    cases last <;> decide
  have branches : ∀ last, branch last ⊆ strokes := by
    intro last
    cases last <;> decide
  rcases List.eq_nil_or_concat lasts with rfl | ⟨before,last,rfl⟩
  · exact List.nil_subset _
  · rw [List.concat_eq_append,lead_concat,List.append_subset]
    refine ⟨fun c member => ?_,branches last⟩
    obtain ⟨passed,_,drawn⟩ := List.mem_flatMap.mp member
    exact columns passed drawn

theorem not_mem_lead {c : Char} {lasts : List Bool} (other : c ∉ strokes) : c ∉ lead lasts :=
  fun member => other (lead_subset lasts member)

end Drawing
end BoxLayout
