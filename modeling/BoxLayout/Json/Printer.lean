import BoxLayout.Json.Basic

namespace BoxLayout.Json

-- Values over several lines: two blanks for each level, every item and every
-- member on its own line, empty containers on one.

def lineBreak (depth : Nat) : List Char := '\n' :: List.replicate (2 * depth) ' '

def quoted (spelling : List Char) : List Char := '"' :: spelling ++ ['"']

mutual
def pretty (depth : Nat) : Json → List Char
  | .null => ['n','u','l','l']
  | .bool true => ['t','r','u','e']
  | .bool false => ['f','a','l','s','e']
  | .number spelling => spelling
  | .string spelling => quoted spelling
  | .array [] => ['[',']']
  | .array (item :: rest) =>
      '[' :: lineBreak (depth + 1) ++ pretty (depth + 1) item ++ prettyItems (depth + 1) rest ++
        lineBreak depth ++ [']']
  | .object [] => ['\x7b','\x7d']
  | .object ((key,value) :: rest) =>
      '\x7b' :: lineBreak (depth + 1) ++ quoted key ++ [':',' '] ++ pretty (depth + 1) value ++
        prettyMembers (depth + 1) rest ++ lineBreak depth ++ ['\x7d']
def prettyItems (depth : Nat) : List Json → List Char
  | [] => []
  | item :: rest => ',' :: lineBreak depth ++ pretty depth item ++ prettyItems depth rest
def prettyMembers (depth : Nat) : List (List Char × Json) → List Char
  | [] => []
  | (key,value) :: rest =>
      ',' :: lineBreak depth ++ quoted key ++ [':',' '] ++ pretty depth value ++ prettyMembers depth rest
end

end BoxLayout.Json
