import BoxLayout.Program.Script
import BoxLayout.Snapshot.Restore
import BoxLayout.Snapshot.Text

namespace BoxLayout

-- What the programs share: a forest out of a file, and rectangles as text.

def Forest.ofFile (path : String) (content : Except String String) : Result Forest :=
  match content with
  | .error reason => .error (.snapshot (.unreachable path reason))
  | .ok text =>
      match Snapshot.parse? text with
      | some s => s.restore
      | none => .error (.snapshot .malformed)

namespace Script

def loading (path : String) (check : Option Failure) (next : Forest → Script) : Script :=
  .ifExists path
    (match check with
      | some failure => .fail failure
      | none =>
          .read path fun content =>
            match Forest.ofFile path content with
            | .ok f => next f
            | .error error => .fail ⟨"Failed to load snapshot",some error.message⟩)
    (.fail ⟨"Snapshot file not found: " ++ path,none⟩)

end Script

def Rect.report (places : Nat) (r : Rect) : String :=
  "pos:(" ++ r.position.x.toFixed places ++ "," ++ r.position.y.toFixed places ++ ") size:(" ++
    r.size.x.toFixed places ++ "," ++ r.size.y.toFixed places ++ ")"

end BoxLayout
