import BoxLayout.Program.Arguments
import BoxLayout.Program.Drawing
import BoxLayout.Program.Load
import BoxLayout.Forest.Update
import BoxLayout.Snapshot.Capture

namespace BoxLayout

-- The program that prints an arranged tree as text.

structure InspectOptions where
  snapshot : String
  format : String
  output : Option String
  showLayout : Bool
  showFlags : Bool
  noUpdate : Bool
  deriving DecidableEq

namespace InspectOptions

def grammar : Grammar where
  options := ["format","output"]
  switches := ["show-layout","show-flags","no-update"]
  letters := []

def parse? (words : List String) : Option InspectOptions := do
  let given ← Arguments.parse grammar words
  return {
    snapshot := ← given.positional
    format := (given.value? "format").getD "tree"
    output := given.value? "output"
    showLayout := given.has "show-layout"
    showFlags := given.has "show-flags"
    noUpdate := given.has "no-update" }

end InspectOptions

namespace Inspect

def joined (names : List String) : String := if names = [] then "-" else "|".intercalate names

def flagsNote (b : Box) : String :=
  let container := if b.container.toWord = 0 then [] else [joined b.container.setNames]
  let layout := if b.flags.toWord = 0 then [] else [joined b.flags.setNames]
  if container ++ layout = [] then "" else " [" ++ " ".intercalate (container ++ layout) ++ "]"

def label (o : InspectOptions) (f : Forest) (key : Key) : String :=
  let b := f.box key
  key.text ++ " " ++ b.arrangement.name ++
    (if f.tag key = 0 then "" else " tag:" ++ wordText (f.tag key)) ++
    (if o.showLayout then " " ++ b.rect.report 0 else "") ++
    (if o.showFlags then flagsNote b else "")

def treeLines (o : InspectOptions) (f : Forest) : List (List Char) :=
  Drawing.lines ((f.outline .root).map fun key => (label o f key).toList)

def treeText (o : InspectOptions) (f : Forest) : String :=
  String.ofList ((treeLines o f).flatMap (· ++ ['\n']))

def unattached (f : Forest) : List Key :=
  f.keys.filter fun key => key ≠ .root && (f.links key).parent.isNone

def treeReport (o : InspectOptions) (f : Forest) : String :=
  let rest := unattached f
  treeText o f ++
    (if rest = [] then "" else "Unattached: " ++ " ".intercalate (rest.map Key.text) ++ "\n")

def sizeText (size : PerAxis Single) : String :=
  let component := fun x : Single => if x < 0 then "unset" else x.toFixed 1
  "(" ++ component size.x ++ ", " ++ component size.y ++ ")"

def spacingText (s : Spacing) : String :=
  "l:" ++ s.left.toFixed 1 ++ " t:" ++ s.top.toFixed 1 ++ " r:" ++ s.right.toFixed 1 ++
    " b:" ++ s.bottom.toFixed 1

def pairText (pair : PerAxis Single) : String :=
  "(" ++ pair.x.toFixed 1 ++ "," ++ pair.y.toFixed 1 ++ ")"

def paddedWord (word : Word) : String :=
  let digits := (Nat.toDigits 16 word.toNat).map Char.toUpper
  "0x" ++ String.ofList (List.replicate (4 - digits.length) '0' ++ digits)

def controlReport (f : Forest) (key : Key) : String :=
  let b := f.box key
  "  " ++ key.text ++ " " ++ b.arrangement.name ++ " (parent " ++
    (Key.ofLink (f.links key).parent).text ++ ")\n" ++
  "    rect:     " ++ b.rect.report 1 ++ "\n" ++
  "    content:  " ++ pairText b.contentSize ++ "\n" ++
  "    fixed:    " ++ sizeText b.fixedSize ++ "\n" ++
  "    minimum:  " ++ sizeText b.minimumSize ++ "\n" ++
  "    maximum:  " ++ sizeText b.maximumSize ++ "\n" ++
  "    margins:  " ++ spacingText b.margins ++ "\n" ++
  "    padding:  " ++ spacingText b.padding ++ "\n" ++
  (if b.flags.floating then "    floating: " ++ pairText b.floatingPosition ++ "\n" else "") ++
  "    flags:    container " ++ paddedWord b.container.toWord ++ " " ++
    joined b.container.setNames ++ " / layout " ++ paddedWord b.flags.toWord ++ " " ++
    joined b.flags.setNames ++ "\n"

def detailedReport (o : InspectOptions) (f : Forest) : String :=
  "=== TRELLIS LAYOUT ANALYSIS ===\n\nSNAPSHOT:\n  Version: " ++ wordText snapshotVersion ++
    "\n  Controls: " ++ countText f.size ++
    "\n  Laid out: " ++ (if o.noUpdate then "false" else "true") ++
    "\n\nCONTROLS:\n" ++ String.join (f.keys.map (controlReport f)) ++
    "\nCONTROL TREE:\n" ++ treeText o f ++ "\n=== END ANALYSIS ===\n"

def text? (o : InspectOptions) (f : Forest) : Option String :=
  if o.format = "tree" then some (treeReport o f)
  else if o.format = "json" then some f.capture.print
  else if o.format = "detailed" then some (detailedReport o f)
  else none

def emit (o : InspectOptions) (text : String) : Script :=
  match o.output with
  | none => .print text .done
  | some path =>
      .write path text fun
        | none => .print ("Output written to: " ++ path ++ "\n") .done
        | some reason => .fail ⟨"Failed to write to file: " ++ path,some reason⟩

def script (o : InspectOptions) : Script :=
  .loading o.snapshot none fun f =>
    let f := if o.noUpdate then f else f.update
    match text? o f with
    | some text => emit o text
    | none =>
        .fail ⟨"Unknown format: " ++ o.format ++ ". Use 'tree', 'json', or 'detailed'",none⟩

end Inspect
end BoxLayout
