import BoxLayout.Tree

namespace BoxLayout

-- Trees drawn as text, one line for each value. A value hangs from its parent by
-- a branch, and a bar runs down past it to its later siblings.

namespace Drawing

def branch (last : Bool) : List Char := if last then ['└','─','─',' '] else ['├','─','─',' ']
def column (last : Bool) : List Char := if last then [' ',' ',' ',' '] else ['│',' ',' ',' ']

mutual
def below (indent : List Char) (last : Bool) : Tree (List Char) → List (List Char)
  | .node label children =>
      (indent ++ branch last ++ label) :: allBelow (indent ++ column last) children
def allBelow (indent : List Char) : List (Tree (List Char)) → List (List Char)
  | [] => []
  | tree :: rest => below indent rest.isEmpty tree ++ allBelow indent rest
end

def lines : Tree (List Char) → List (List Char)
  | .node label children => label :: allBelow [] children

end Drawing
end BoxLayout
