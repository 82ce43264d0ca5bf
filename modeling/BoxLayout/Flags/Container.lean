import BoxLayout.Axis
import BoxLayout.Flags.Names

namespace BoxLayout

-- How a control arranges its own children.

inductive Arrangement where
  | free
  | row
  | column
  | rowWrap
  | columnWrap
  deriving DecidableEq

namespace Arrangement

def primaryAxis? : Arrangement → Option Axis
  | .row | .rowWrap => some .x
  | .column | .columnWrap => some .y
  | .free => none

def wraps : Arrangement → Bool
  | .rowWrap | .columnWrap => true
  | _ => false

def name : Arrangement → String
  | .free => "Free"
  | .row => "Row"
  | .column => "Column"
  | .rowWrap => "RowWrap"
  | .columnWrap => "ColumnWrap"

end Arrangement

-- What happens to leftover space along the primary axis.
inductive Alignment where
  | center
  | start
  | finish
  | justify
  deriving DecidableEq

namespace Alignment

def ofBits (start finish : Bool) : Alignment :=
  match start,finish with
  | false,false => .center
  | true,false => .start
  | false,true => .finish
  | true,true => .justify

def startBit : Alignment → Bool
  | .start | .justify => true
  | _ => false

def finishBit : Alignment → Bool
  | .finish | .justify => true
  | _ => false

def name : Alignment → String
  | .center => "Center"
  | .start => "Start"
  | .finish => "End"
  | .justify => "Justify"

theorem startBit_ofBits (start finish : Bool) : (ofBits start finish).startBit = start := by
  cases start <;> cases finish <;> rfl

theorem finishBit_ofBits (start finish : Bool) : (ofBits start finish).finishBit = finish := by
  cases start <;> cases finish <;> rfl

theorem ofBits_bits (alignment : Alignment) :
    ofBits alignment.startBit alignment.finishBit = alignment := by cases alignment <;> rfl

end Alignment

namespace ContainerFlags

def names : Flags.Names :=
  [("ROW",0),("COLUMN",1),("WRAP",2),("ALIGN_START",3),("ALIGN_END",4),("CONSTRAIN_SIZE",5),
    ("PREVENT_CRUSH_X",6),("PREVENT_CRUSH_Y",8)]

def known : Word := Flags.known names

end ContainerFlags

-- Row and column are both set or both clear only in a word no control was
-- configured with; such a control is a free container.
structure ContainerFlags where
  row : Bool
  column : Bool
  wrap : Bool
  alignment : Alignment
  constrainSize : Bool
  preventCrush : PerAxis Bool
  undefined : Word
  undefined_outside : undefined &&& ContainerFlags.known = 0
  deriving DecidableEq

namespace ContainerFlags
open Flags

def ofWord (word : Word) : ContainerFlags where
  row := word.getLsbD 0
  column := word.getLsbD 1
  wrap := word.getLsbD 2
  alignment := .ofBits (word.getLsbD 3) (word.getLsbD 4)
  constrainSize := word.getLsbD 5
  preventCrush := ⟨word.getLsbD 6,word.getLsbD 8⟩
  undefined := word &&& ~~~known
  undefined_outside := outside_known word known

def toWord (flags : ContainerFlags) : Word :=
  bit 0 flags.row ||| bit 1 flags.column ||| bit 2 flags.wrap |||
    bit 3 flags.alignment.startBit ||| bit 4 flags.alignment.finishBit |||
    bit 5 flags.constrainSize ||| bit 6 flags.preventCrush.x ||| bit 8 flags.preventCrush.y |||
    flags.undefined

def empty : ContainerFlags := ofWord 0

instance : Inhabited ContainerFlags := ⟨empty⟩

def Defined (flags : ContainerFlags) : Prop := flags.undefined = 0

instance (flags : ContainerFlags) : Decidable flags.Defined := inferInstanceAs (Decidable (_ = _))

def arrangement (flags : ContainerFlags) : Arrangement :=
  match flags.row,flags.column,flags.wrap with
  | true,false,true => .rowWrap
  | true,false,false => .row
  | false,true,true => .columnWrap
  | false,true,false => .column
  | _,_,_ => .free

def Directed (flags : ContainerFlags) : Prop := flags.row ≠ flags.column

instance (flags : ContainerFlags) : Decidable flags.Directed := inferInstanceAs (Decidable (_ ≠ _))

def swap (flags : ContainerFlags) : ContainerFlags :=
  { flags with row := flags.column, column := flags.row, preventCrush := flags.preventCrush.swap }

def setNames (flags : ContainerFlags) : List String := Flags.setNames names flags.toWord
def describe (flags : ContainerFlags) : String := Flags.describe "ContainerFlags" names flags.toWord

theorem getLsbD_known : ∀ i, i < 32 → known.getLsbD i =
    (decide (i = 0) || decide (i = 1) || decide (i = 2) || decide (i = 3) || decide (i = 4) ||
      decide (i = 5) || decide (i = 6) || decide (i = 8)) := by decide

theorem getLsbD_toWord (flags : ContainerFlags) (i : Nat) (bounded : i < 32) :
    flags.toWord.getLsbD i =
      ((decide (i = 0) && flags.row) || (decide (i = 1) && flags.column) ||
        (decide (i = 2) && flags.wrap) || (decide (i = 3) && flags.alignment.startBit) ||
        (decide (i = 4) && flags.alignment.finishBit) || (decide (i = 5) && flags.constrainSize) ||
        (decide (i = 6) && flags.preventCrush.x) || (decide (i = 8) && flags.preventCrush.y) ||
        flags.undefined.getLsbD i) := by
  simp only [toWord,BitVec.getLsbD_or,getLsbD_bit _ _ _ bounded]

theorem toWord_ofWord (word : Word) : (ofWord word).toWord = word := by
  apply BitVec.eq_of_getLsbD_eq
  intro i bounded
  rw [getLsbD_toWord _ _ bounded]
  simp only [ofWord,Alignment.startBit_ofBits,Alignment.finishBit_ofBits,BitVec.getLsbD_and,
    BitVec.getLsbD_not,bounded,getLsbD_known i bounded,decide_true,Bool.true_and]
  by_cases h0 : i = 0
  · subst h0; simp
  by_cases h1 : i = 1
  · subst h1; simp
  by_cases h2 : i = 2
  · subst h2; simp
  by_cases h3 : i = 3
  · subst h3; simp
  by_cases h4 : i = 4
  · subst h4; simp
  by_cases h5 : i = 5
  · subst h5; simp
  by_cases h6 : i = 6
  · subst h6; simp
  by_cases h8 : i = 8
  · subst h8; simp
  simp [*]

theorem undefined_toWord (flags : ContainerFlags) : flags.toWord &&& ~~~known = flags.undefined := by
  apply BitVec.eq_of_getLsbD_eq
  intro i bounded
  cases named : known.getLsbD i with
  | true => simp [named,getLsbD_outside _ _ flags.undefined_outside i named]
  | false =>
      simp only [BitVec.getLsbD_and,BitVec.getLsbD_not,bounded,named,getLsbD_toWord _ _ bounded]
      rw [getLsbD_known i bounded] at named
      simp only [Bool.or_eq_false_iff,decide_eq_false_iff_not] at named
      simp [named]

theorem ofWord_toWord (flags : ContainerFlags) : ofWord flags.toWord = flags := by
  have rest := undefined_toWord flags
  obtain ⟨row,column,wrap,alignment,constrainSize,⟨across,down⟩,undefined,outside⟩ := flags
  have clear := getLsbD_outside undefined known outside
  simp only [ofWord,mk.injEq,rest]
  simp only [getLsbD_toWord _ 0 (by decide),getLsbD_toWord _ 1 (by decide),
    getLsbD_toWord _ 2 (by decide),getLsbD_toWord _ 3 (by decide),getLsbD_toWord _ 4 (by decide),
    getLsbD_toWord _ 5 (by decide),getLsbD_toWord _ 6 (by decide),getLsbD_toWord _ 8 (by decide),
    clear 0 (by decide),clear 1 (by decide),clear 2 (by decide),clear 3 (by decide),
    clear 4 (by decide),clear 5 (by decide),clear 6 (by decide),clear 8 (by decide)]
  simp [Alignment.ofBits_bits]

end ContainerFlags
end BoxLayout
