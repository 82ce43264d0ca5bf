import BoxLayout.Json.Basic
import BoxLayout.Number.Reader

namespace BoxLayout.Json

-- Tokens of a JSON text, found by an automaton that takes one character at a time.

inductive Token where
  | openArray
  | closeArray
  | openObject
  | closeObject
  | comma
  | colon
  | null
  | bool (value : Bool)
  | number (spelling : List Char)
  | string (spelling : List Char)
  deriving DecidableEq

inductive Mode where
  | between
  | text (spelled : List Char)
  | escape (spelled : List Char)
  | hex (left : Nat) (spelled : List Char)
  | numeral (spelled : List Char)
  | word (spelled : List Char)
  deriving DecidableEq

namespace Token

def ofNumeral? (spelling : List Char) : Option Token :=
  (Numeral.read? spelling).map fun _ => .number spelling

def ofWord? (spelling : List Char) : Option Token :=
  if spelling = ['n','u','l','l'] then some .null
  else if spelling = ['t','r','u','e'] then some (.bool true)
  else if spelling = ['f','a','l','s','e'] then some (.bool false)
  else none

def numeric (c : Char) : Bool := c.isDigit || c = '-' || c = '+' || c = '.' || c = 'e' || c = 'E'

def punctuation? (c : Char) : Option Token :=
  if c = '[' then some .openArray
  else if c = ']' then some .closeArray
  else if c = '\x7b' then some .openObject
  else if c = '\x7d' then some .closeObject
  else if c = ',' then some .comma
  else if c = ':' then some .colon
  else none

def start (c : Char) : Option (List Token × Mode) :=
  if blank c then some ([],.between)
  else if c = '"' then some ([],.text [])
  else if c.isDigit ∨ c = '-' then some ([],.numeral [c])
  else if c.isLower then some ([],.word [c])
  else (punctuation? c).map fun token => ([token],.between)

def ended (token : Option Token) (c : Char) : Option (List Token × Mode) :=
  match token,start c with
  | some token,some (tokens,mode) => some (token :: tokens,mode)
  | _,_ => none

def step : Mode → Char → Option (List Token × Mode)
  | .between,c => start c
  | .text spelled,c =>
      if c = '"' then some ([.string spelled.reverse],.between)
      else if c = '\\' then some ([],.escape (c :: spelled))
      else if c < ' ' then none
      else some ([],.text (c :: spelled))
  | .escape spelled,c =>
      if c = 'u' then some ([],.hex 4 (c :: spelled))
      else if c ∈ ['"','\\','/','b','f','n','r','t'] then some ([],.text (c :: spelled))
      else none
  | .hex left spelled,c =>
      if (hexDigit? c).isNone then none
      else if left ≤ 1 then some ([],.text (c :: spelled))
      else some ([],.hex (left - 1) (c :: spelled))
  | .numeral spelled,c =>
      if numeric c then some ([],.numeral (c :: spelled)) else ended (ofNumeral? spelled.reverse) c
  | .word spelled,c =>
      if c.isLower then some ([],.word (c :: spelled)) else ended (ofWord? spelled.reverse) c

def finish : Mode → Option (List Token)
  | .between => some []
  | .numeral spelled => (ofNumeral? spelled.reverse).map ([·])
  | .word spelled => (ofWord? spelled.reverse).map ([·])
  | _ => none

def scan (mode : Mode) (found : List Token) : List Char → Option (List Token)
  | [] => (finish mode).map fun last => found.reverse ++ last
  | c :: rest =>
      match step mode c with
      | some (tokens,mode) => scan mode (tokens.reverse ++ found) rest
      | none => none

def ofText? (text : List Char) : Option (List Token) := scan .between [] text

end Token
end BoxLayout.Json
