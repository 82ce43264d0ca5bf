import BoxLayout.Snapshot.Basic
import BoxLayout.Json.Parser
import BoxLayout.Json.Printer
import BoxLayout.Json.Decode
import BoxLayout.Number.Text

namespace BoxLayout

-- Snapshots as JSON text. Both ways go through the same field names.

namespace Json

def ofWord (word : Word) : Json := .number (Decimal.digits word.toNat)

-- JSON has no spelling for infinities and not-a-number.
def ofSingle (x : Single) : Json :=
  match x.numeral? with
  | some numeral => .number numeral
  | none => .null

def ofPair (pair : PerAxis Single) : Json := .array [ofSingle pair.x,ofSingle pair.y]

def record (names : List String) (values : List Json) : Json :=
  .object ((names.map String.toList).zip values)

def pair? : Json → Option (PerAxis Single)
  | .array [x,y] => do return ⟨← single? x,← single? y⟩
  | _ => none

end Json

open Json

namespace Spacing

def fieldNames : List String := ["left","top","right","bottom"]

def toJson (s : Spacing) : Json := record fieldNames (s.sides.map ofSingle)

def ofJson? (json : Json) : Option Spacing := do
  match ← fields? fieldNames json with
  | [left,top,right,bottom] =>
      return ⟨← required single? left,← required single? top,← required single? right,
        ← required single? bottom⟩
  | _ => none

end Spacing

namespace Rect

def fieldNames : List String := ["position","size"]

def toJson (r : Rect) : Json := record fieldNames [ofPair r.position,ofPair r.size]

def ofJson? (json : Json) : Option Rect := do
  match ← fields? fieldNames json with
  | [position,size] => return ⟨← required pair? position,← required pair? size⟩
  | _ => none

end Rect

namespace Node

def fieldNames : List String :=
  ["key","parent","container_flags","layout_flags","margins","padding","fixed_size","minimum_size",
    "maximum_size","floating_position","tag","rect"]

def toJson (node : Node) : Json :=
  record fieldNames
    [ofWord node.key,ofWord node.parent,ofWord node.containerFlags,ofWord node.layoutFlags,
      node.margins.toJson,node.padding.toJson,ofPair node.fixedSize,ofPair node.minimumSize,
      ofPair node.maximumSize,ofPair node.floatingPosition,ofWord node.tag,node.rect.toJson]

def ofJson? (json : Json) : Option Node := do
  match ← fields? fieldNames json with
  | [key,parent,containerFlags,layoutFlags,margins,padding,fixedSize,minimumSize,maximumSize,
      floatingPosition,tag,rect] =>
      let plain := Node.plain (← required word? key)
      return {
        key := plain.key
        parent := ← optional word? plain.parent parent
        containerFlags := ← optional word? plain.containerFlags containerFlags
        layoutFlags := ← optional word? plain.layoutFlags layoutFlags
        margins := ← optional Spacing.ofJson? plain.margins margins
        padding := ← optional Spacing.ofJson? plain.padding padding
        fixedSize := ← optional pair? plain.fixedSize fixedSize
        minimumSize := ← optional pair? plain.minimumSize minimumSize
        maximumSize := ← optional pair? plain.maximumSize maximumSize
        floatingPosition := ← optional pair? plain.floatingPosition floatingPosition
        tag := ← optional word? plain.tag tag
        rect := ← optional Rect.ofJson? plain.rect rect }
  | _ => none

end Node

namespace Snapshot

def fieldNames : List String := ["version","nodes"]

def toJson (s : Snapshot) : Json :=
  record fieldNames [ofWord s.version,.array (s.nodes.map Node.toJson)]

def nodes? : Json → Option (List Node)
  | .array items => items.mapM Node.ofJson?
  | _ => none

def ofJson? (json : Json) : Option Snapshot := do
  match ← fields? fieldNames json with
  | [version,nodes] => return ⟨← required word? version,← required nodes? nodes⟩
  | _ => none

def print (s : Snapshot) : String := String.ofList (pretty 0 s.toJson)

def parse? (text : String) : Option Snapshot := (Json.parse? text.toList).bind ofJson?

end Snapshot
end BoxLayout
