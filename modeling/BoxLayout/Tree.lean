namespace BoxLayout

-- Finite trees with ordered children.
inductive Tree (α : Type) where
  | node (value : α) (children : List (Tree α))

namespace Tree
variable {α β : Type}

def value : Tree α → α
  | .node value _ => value

def children : Tree α → List (Tree α)
  | .node _ children => children

mutual
def map (change : α → β) : Tree α → Tree β
  | .node value children => .node (change value) (mapAll change children)
def mapAll (change : α → β) : List (Tree α) → List (Tree β)
  | [] => []
  | tree :: rest => map change tree :: mapAll change rest
end

mutual
def preorder : Tree α → List α
  | .node value children => value :: preorderAll children
def preorderAll : List (Tree α) → List α
  | [] => []
  | tree :: rest => preorder tree ++ preorderAll rest
end

theorem mapAll_eq (change : α → β) (trees : List (Tree α)) : mapAll change trees = trees.map (map change) := by
  induction trees with
  | nil => rfl
  | cons tree rest ih => simp only [mapAll,ih,List.map_cons]

theorem preorderAll_eq (trees : List (Tree α)) : preorderAll trees = trees.flatMap preorder := by
  induction trees with
  | nil => rfl
  | cons tree rest ih => simp only [preorderAll,ih,List.flatMap_cons]

end Tree
end BoxLayout
