import BoxLayout.Json.Token

namespace BoxLayout.Json

-- Values out of tokens, by an automaton with a stack of open containers.

-- An open array with its items in reverse, or an open object with its members in
-- reverse and the key whose value is awaited.
inductive Frame where
  | items (items : List Json)
  | member (members : List (List Char × Json)) (key : List Char)

inductive State where
  | awaitValue (stack : List Frame)
  | openArray (stack : List Frame)
  | afterItem (items : List Json) (stack : List Frame)
  | openObject (stack : List Frame)
  | awaitKey (members : List (List Char × Json)) (stack : List Frame)
  | awaitColon (members : List (List Char × Json)) (key : List Char) (stack : List Frame)
  | afterMember (members : List (List Char × Json)) (stack : List Frame)
  | finished (value : Json)

namespace State

def complete (value : Json) : List Frame → State
  | [] => .finished value
  | .items items :: stack => .afterItem (value :: items) stack
  | .member members key :: stack => .afterMember ((key,value) :: members) stack

def begin (stack : List Frame) : Token → Option State
  | .null => some (complete .null stack)
  | .bool value => some (complete (.bool value) stack)
  | .number spelling => some (complete (.number spelling) stack)
  | .string spelling => some (complete (.string spelling) stack)
  | .openArray => some (.openArray stack)
  | .openObject => some (.openObject stack)
  | _ => none

def step : State → Token → Option State
  | .awaitValue stack,token => begin stack token
  | .openArray stack,.closeArray => some (complete (.array []) stack)
  | .openArray stack,token => begin (.items [] :: stack) token
  | .afterItem items stack,.comma => some (.awaitValue (.items items :: stack))
  | .afterItem items stack,.closeArray => some (complete (.array items.reverse) stack)
  | .openObject stack,.closeObject => some (complete (.object []) stack)
  | .openObject stack,.string key => some (.awaitColon [] key stack)
  | .awaitKey members stack,.string key => some (.awaitColon members key stack)
  | .awaitColon members key stack,.colon => some (.awaitValue (.member members key :: stack))
  | .afterMember members stack,.comma => some (.awaitKey members stack)
  | .afterMember members stack,.closeObject => some (complete (.object members.reverse) stack)
  | _,_ => none

def run (state : State) : List Token → Option State
  | [] => some state
  | token :: rest =>
      match step state token with
      | some state => run state rest
      | none => none

end State

def ofTokens? (tokens : List Token) : Option Json :=
  match State.run (.awaitValue []) tokens with
  | some (.finished value) => some value
  | _ => none

def parse? (text : List Char) : Option Json := (Token.ofText? text).bind ofTokens?

end BoxLayout.Json
