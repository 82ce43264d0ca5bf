import BoxLayout.Program.Arguments
import BoxLayout.Program.Blank
import BoxLayout.Program.Load
import BoxLayout.Forest.Update
import BoxLayout.Forest.Bounds
import BoxLayout.Forest.Query
import BoxLayout.Snapshot.Capture

namespace BoxLayout

-- The program that runs layout frames over a snapshot file and reports on the result.

structure FramesOptions where
  snapshot : String
  width : Option Single
  height : Option Single
  frames : Nat
  hit : Option String
  verify : Bool
  save : Option String
  deriving DecidableEq

namespace FramesOptions

def grammar : Grammar where
  options := ["width","height","frames","hit","save"]
  switches := ["verify","debug"]
  letters := [('d',"debug")]

def parse? (words : List String) : Option FramesOptions := do
  let given ← Arguments.parse grammar words
  return {
    snapshot := ← given.positional
    width := ← OptionValue.ifGiven OptionValue.single? (given.value? "width")
    height := ← OptionValue.ifGiven OptionValue.single? (given.value? "height")
    frames := (← OptionValue.ifGiven OptionValue.count? (given.value? "frames")).getD 1
    hit := given.value? "hit"
    verify := given.has "verify"
    save := given.value? "save" }

end FramesOptions

namespace Frames

def coordinate (name : String) (text : List Char) : Except Failure Single :=
  match Single.read (Text.trim text) with
  | .ok x => .ok x
  | .error error => .error ⟨"Invalid " ++ name ++ " coordinate: " ++ String.ofList text,some error.message⟩

def point (text : String) : Except Failure (PerAxis Single) :=
  match text.toList.dropWhile (· ≠ ',') with
  | [] => .error ⟨"Expected X,Y but got: " ++ text,none⟩
  | _ :: rest => do
      let x ← coordinate "X" (text.toList.takeWhile (· ≠ ','))
      let y ← coordinate "Y" rest
      return ⟨x,y⟩

def resized (o : FramesOptions) (f : Forest) : Forest :=
  if o.width.isNone && o.height.isNone then f
  else
    let current := (f.box .root).fixedSize
    match f.setSize .root ⟨o.width.getD current.x,o.height.getD current.y⟩ with
    | .ok f => f
    | .error _ => f

def laidOut (o : FramesOptions) (f : Forest) : Forest := (resized o f).updates (max o.frames 1)

def hitLine (f : Forest) (at_point : PerAxis Single) : String :=
  match f.hitTest at_point with
  | some key => "Hit " ++ key.text ++ ": " ++ (f.box key).rect.report 1 ++ "\n"
  | none => "Hit: none\n"

def summary (f : Forest) : String :=
  "Controls: " ++ countText f.size ++ "\nRoot: " ++ (f.box .root).rect.report 1 ++ "\n"

def saving (f : Forest) : Option String → Script
  | none => .done
  | some path =>
      .write path f.capture.print fun
        | none => .done
        | some reason =>
            .fail ⟨"Failed to write snapshot: " ++ path,
              some (LayoutError.snapshot (.unreachable path reason)).message⟩

def verifying (verify : Bool) (f : Forest) (next : Script) : Script :=
  if verify then
    match f.verify with
    | .ok _ => .print "Constraints: ok\n" next
    | .error error => .fail ⟨"Constraint check failed",some error.message⟩
  else next

def report (o : FramesOptions) (hit : Option (PerAxis Single)) (f : Forest) : Script :=
  let rest := verifying o.verify f (saving f o.save)
  .print (summary f) (match hit with
    | some at_point => .print (hitLine f at_point) rest
    | none => rest)

def script (o : FramesOptions) : Script :=
  match o.hit.map point with
  | none => .loading o.snapshot none fun f => report o none (laidOut o f)
  | some (.ok at_point) => .loading o.snapshot none fun f => report o (some at_point) (laidOut o f)
  | some (.error failure) => .loading o.snapshot (some failure) fun _ => .done

end Frames
end BoxLayout
