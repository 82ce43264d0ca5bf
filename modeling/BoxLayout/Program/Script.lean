namespace BoxLayout

-- Programs that look at files, write files and print, as values. What a program
-- does with files that behave in a given way can then be computed.

structure Failure where
  summary : String
  cause : Option String
  deriving DecidableEq

def Failure.message (failure : Failure) : String :=
  "Error: " ++ failure.summary ++
    match failure.cause with
    | some cause => "\n\nCaused by:\n    " ++ "\n    ".intercalate (cause.splitOn "\n")
    | none => ""

inductive Script where
  | ifExists (path : String) (present absent : Script)
  | read (path : String) (next : Except String String → Script)
  | write (path text : String) (next : Option String → Script)
  | print (text : String) (next : Script)
  | done
  | fail (failure : Failure)

structure Files where
  present : String → Bool
  content : String → Except String String
  refusal : String → Option String

inductive Event where
  | printed (text : String)
  | wrote (path text : String)
  deriving DecidableEq

structure Outcome where
  events : List Event
  failure : Option Failure
  deriving DecidableEq

namespace Script

def prepend (event : Event) (outcome : Outcome) : Outcome :=
  { outcome with events := event :: outcome.events }

def outcome (files : Files) : Script → Outcome
  | .ifExists path present absent =>
      if files.present path then outcome files present else outcome files absent
  | .read path next => outcome files (next (files.content path))
  | .write path text next =>
      match files.refusal path with
      | some reason => outcome files (next (some reason))
      | none => prepend (.wrote path text) (outcome files (next none))
  | .print text next => prepend (.printed text) (outcome files next)
  | .done => ⟨[],none⟩
  | .fail failure => ⟨[],some failure⟩

end Script
end BoxLayout
