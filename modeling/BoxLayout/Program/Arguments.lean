import BoxLayout.Number.Reader
import BoxLayout.Key

namespace BoxLayout

-- Command lines: one positional word, options with a value, and switches. Every
-- one may be given once, in any order.

structure Grammar where
  options : List String
  switches : List String
  letters : List (Char × String)

structure Arguments where
  positional : Option String
  values : List (String × String)
  switches : List String
  deriving DecidableEq

namespace Arguments

def none : Arguments := ⟨.none,[],[]⟩

def addPositional (given : Arguments) (word : String) : Option Arguments :=
  if given.positional.isSome then .none else some { given with positional := some word }

def addValue (given : Arguments) (name value : String) : Option Arguments :=
  if given.values.any (·.1 = name) then .none
  else some { given with values := (name,value) :: given.values }

def addSwitch (given : Arguments) (name : String) : Option Arguments :=
  if name ∈ given.switches then .none else some { given with switches := name :: given.switches }

def addLetters (grammar : Grammar) (given : Arguments) : List Char → Option Arguments
  | [] => some given
  | letter :: rest =>
      match grammar.letters.find? (·.1 = letter) with
      | some row => (given.addSwitch row.2).bind fun given => addLetters grammar given rest
      | .none => .none

def Dashed (word : List Char) : Prop := word.head? = some '-' ∧ word ≠ ['-']

instance (word : List Char) : Decidable (Dashed word) := inferInstanceAs (Decidable (_ ∧ _))

def cut (text : List Char) : String × Option String :=
  match text.dropWhile (· ≠ '=') with
  | [] => (String.ofList text,.none)
  | _ :: value => (String.ofList (text.takeWhile (· ≠ '=')),some (String.ofList value))

def addPositionals (given : Arguments) : List String → Option Arguments
  | [] => some given
  | word :: rest => (given.addPositional word).bind fun given => given.addPositionals rest

-- Two dashes alone end the options. The value of an option follows an equals
-- sign or is the next word, if that does not look like an option itself.
def parseFrom (grammar : Grammar) (given : Arguments) : List String → Option Arguments
  | [] => some given
  | word :: rest =>
      if word = "--" then given.addPositionals rest
      else if word.toList.take 2 = ['-','-'] then
        match cut (word.toList.drop 2) with
        | (name,.none) =>
            if name ∈ grammar.switches then
              match given.addSwitch name with
              | some given => parseFrom grammar given rest
              | .none => .none
            else if name ∈ grammar.options then
              match rest with
              | value :: rest =>
                  if Dashed value.toList then .none
                  else match given.addValue name value with
                    | some given => parseFrom grammar given rest
                    | .none => .none
              | [] => .none
            else .none
        | (name,some value) =>
            if name ∈ grammar.options then
              match given.addValue name value with
              | some given => parseFrom grammar given rest
              | .none => .none
            else .none
      else if Dashed word.toList then
        match given.addLetters grammar (word.toList.drop 1) with
        | some given => parseFrom grammar given rest
        | .none => .none
      else match given.addPositional word with
        | some given => parseFrom grammar given rest
        | .none => .none

def parse (grammar : Grammar) (words : List String) : Option Arguments := parseFrom grammar none words

def value? (given : Arguments) (name : String) : Option String :=
  (given.values.find? (·.1 = name)).map (·.2)

def has (given : Arguments) (name : String) : Bool := given.switches.contains name

end Arguments

namespace OptionValue

def ifGiven {α : Type} (read? : String → Option α) : Option String → Option (Option α)
  | none => some none
  | some text => (read? text).map some

def single? (text : String) : Option Single :=
  match Single.read text.toList with
  | .ok x => some x
  | .error _ => none

def count? (text : String) : Option Nat :=
  let (negative,digits) := Decimal.sign? true text.toList
  if digits = [] ∨ digits.all Decimal.Digit = false then none
  else
    let value := Decimal.ofDigits digits
    if (negative ∧ value ≠ 0) ∨ 2 ^ 32 ≤ value then none else some value

end OptionValue
end BoxLayout
