import BoxLayout.Program.Frames
import BoxLayout.Program.Inspect

namespace BoxLayout

-- Running scripts on real files. Which program runs is told by the name under
-- which the executable was called.

namespace Script

def reason : IO.Error → String
  | .noFileOrDirectory _ code details | .inappropriateType (some _) code details
  | .permissionDenied (some _) code details | .invalidArgument (some _) code details =>
      details ++ " (os error " ++ countText code.toNat ++ ")"
  | other => other.toString

def readable (path : String) : IO (Except String String) := do
  match ← (IO.FS.readFile path).toBaseIO with
  | .ok text => return .ok text
  | .error e => return .error (reason e)

def exists? (path : String) : IO Bool := do
  match ← (IO.FS.readFile path).toBaseIO with
  | .error (.noFileOrDirectory ..) => return false
  | _ => return true

def perform : Script → IO UInt32
  | .ifExists path present absent => do
      if ← exists? path then perform present else perform absent
  | .read path next => do perform (next (← readable path))
  | .write path text next => do
      match ← (IO.FS.writeFile path text).toBaseIO with
      | .ok _ => perform (next none)
      | .error e => perform (next (some (reason e)))
  | .print text next => do
      IO.print text
      perform next
  | .done => return 0
  | .fail failure => do
      IO.eprintln failure.message
      return 1

end Script
end BoxLayout

open BoxLayout in
def main (words : List String) : IO UInt32 := do
  let called := (← IO.appPath).fileStem.getD ""
  let script :=
    if called.endsWith "-debug" then (InspectOptions.parse? words).map Inspect.script
    else (FramesOptions.parse? words).map Frames.script
  match script with
  | some script => script.perform
  | none => do
      IO.eprintln "error: unexpected arguments"
      return 2
