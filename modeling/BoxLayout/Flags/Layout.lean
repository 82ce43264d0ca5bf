import BoxLayout.Axis
import BoxLayout.Flags.Names

namespace BoxLayout

-- How a control sits inside its parent.

inductive Anchor where
  | center
  | start
  | finish
  | fill
  deriving DecidableEq

namespace Anchor

def ofBits (start finish : Bool) : Anchor :=
  match start,finish with
  | false,false => .center
  | true,false => .start
  | false,true => .finish
  | true,true => .fill

def startBit : Anchor → Bool
  | .start | .fill => true
  | _ => false

def finishBit : Anchor → Bool
  | .finish | .fill => true
  | _ => false

def name : Anchor → String
  | .center => "Center"
  | .start => "Start"
  | .finish => "End"
  | .fill => "Fill"

theorem startBit_ofBits (start finish : Bool) : (ofBits start finish).startBit = start := by
  cases start <;> cases finish <;> rfl

theorem finishBit_ofBits (start finish : Bool) : (ofBits start finish).finishBit = finish := by
  cases start <;> cases finish <;> rfl

theorem ofBits_bits (anchor : Anchor) : ofBits anchor.startBit anchor.finishBit = anchor := by
  cases anchor <;> rfl

end Anchor

namespace LayoutFlags

def names : Flags.Names :=
  [("ANCHOR_LEFT",0),("ANCHOR_RIGHT",1),("ANCHOR_TOP",2),("ANCHOR_BOTTOM",3),("FIXED_WIDTH",4),
    ("FIXED_HEIGHT",6),("FORCE_BREAK",8),("BREAK",9),("FLOATING",10),("STACKED",11)]

def known : Word := Flags.known names

end LayoutFlags

-- The fixed markers follow the fixed size and the break marker is written where
-- a run ended; the rest belongs to the caller.
structure LayoutFlags where
  anchor : PerAxis Anchor
  fixed : PerAxis Bool
  forceBreak : Bool
  isBreak : Bool
  floating : Bool
  stacked : Bool
  undefined : Word
  undefined_outside : undefined &&& LayoutFlags.known = 0
  deriving DecidableEq

namespace LayoutFlags
open Flags

def ofWord (word : Word) : LayoutFlags where
  anchor := ⟨.ofBits (word.getLsbD 0) (word.getLsbD 1),.ofBits (word.getLsbD 2) (word.getLsbD 3)⟩
  fixed := ⟨word.getLsbD 4,word.getLsbD 6⟩
  forceBreak := word.getLsbD 8
  isBreak := word.getLsbD 9
  floating := word.getLsbD 10
  stacked := word.getLsbD 11
  undefined := word &&& ~~~known
  undefined_outside := outside_known word known

def toWord (flags : LayoutFlags) : Word :=
  bit 0 flags.anchor.x.startBit ||| bit 1 flags.anchor.x.finishBit |||
    bit 2 flags.anchor.y.startBit ||| bit 3 flags.anchor.y.finishBit |||
    bit 4 flags.fixed.x ||| bit 6 flags.fixed.y ||| bit 8 flags.forceBreak |||
    bit 9 flags.isBreak ||| bit 10 flags.floating ||| bit 11 flags.stacked ||| flags.undefined

def empty : LayoutFlags := ofWord 0

instance : Inhabited LayoutFlags := ⟨empty⟩

def Defined (flags : LayoutFlags) : Prop := flags.undefined = 0

instance (flags : LayoutFlags) : Decidable flags.Defined := inferInstanceAs (Decidable (_ = _))

def fixedWord (axis : Axis) : Word := bit (4 + 2 * axis.index) true

-- The bits of one axis, at the places the first axis has them.
def axisWord (flags : LayoutFlags) (axis : Axis) : Word :=
  bit 0 (flags.anchor.get axis).startBit ||| bit 1 (flags.anchor.get axis).finishBit |||
    bit 4 (flags.fixed.get axis)

def fills (flags : LayoutFlags) (axis : Axis) : Bool := flags.anchor.get axis = .fill

def startsRun (flags : LayoutFlags) : Bool := flags.forceBreak || flags.isBreak

-- Floating and stacked controls never take part in runs.
def inFlow (flags : LayoutFlags) : Bool := !flags.floating && !flags.stacked

def external (flags : LayoutFlags) : LayoutFlags :=
  { flags with fixed := .both false, isBreak := false }

def withMarkersOf (flags old : LayoutFlags) : LayoutFlags :=
  { flags with fixed := old.fixed, isBreak := old.isBreak }

def swap (flags : LayoutFlags) : LayoutFlags :=
  { flags with anchor := flags.anchor.swap, fixed := flags.fixed.swap }

def setNames (flags : LayoutFlags) : List String := Flags.setNames names flags.toWord
def describe (flags : LayoutFlags) : String := Flags.describe "LayoutFlags" names flags.toWord

theorem getLsbD_known : ∀ i, i < 32 → known.getLsbD i =
    (decide (i = 0) || decide (i = 1) || decide (i = 2) || decide (i = 3) || decide (i = 4) ||
      decide (i = 6) || decide (i = 8) || decide (i = 9) || decide (i = 10) || decide (i = 11)) := by decide

theorem getLsbD_toWord (flags : LayoutFlags) (i : Nat) (bounded : i < 32) :
    flags.toWord.getLsbD i =
      ((decide (i = 0) && flags.anchor.x.startBit) || (decide (i = 1) && flags.anchor.x.finishBit) ||
        (decide (i = 2) && flags.anchor.y.startBit) || (decide (i = 3) && flags.anchor.y.finishBit) ||
        (decide (i = 4) && flags.fixed.x) || (decide (i = 6) && flags.fixed.y) ||
        (decide (i = 8) && flags.forceBreak) || (decide (i = 9) && flags.isBreak) ||
        (decide (i = 10) && flags.floating) || (decide (i = 11) && flags.stacked) ||
        flags.undefined.getLsbD i) := by
  simp only [toWord,BitVec.getLsbD_or,getLsbD_bit _ _ _ bounded]

theorem toWord_ofWord (word : Word) : (ofWord word).toWord = word := by
  apply BitVec.eq_of_getLsbD_eq
  intro i bounded
  rw [getLsbD_toWord _ _ bounded]
  simp only [ofWord,Anchor.startBit_ofBits,Anchor.finishBit_ofBits,BitVec.getLsbD_and,
    BitVec.getLsbD_not,bounded,getLsbD_known i bounded,decide_true,Bool.true_and]
  by_cases h0 : i = 0
  · subst h0; simp
  by_cases h1 : i = 1
  · subst h1; simp
  by_cases h2 : i = 2
  · subst h2; simp
  by_cases h3 : i = 3
  · subst h3; simp
  by_cases h4 : i = 4
  · subst h4; simp
  by_cases h6 : i = 6
  · subst h6; simp
  by_cases h8 : i = 8
  · subst h8; simp
  by_cases h9 : i = 9
  · subst h9; simp
  by_cases h10 : i = 10
  · subst h10; simp
  by_cases h11 : i = 11
  · subst h11; simp
  simp [*]

theorem undefined_toWord (flags : LayoutFlags) : flags.toWord &&& ~~~known = flags.undefined := by
  apply BitVec.eq_of_getLsbD_eq
  intro i bounded
  cases named : known.getLsbD i with
  | true => simp [named,getLsbD_outside _ _ flags.undefined_outside i named]
  | false =>
      simp only [BitVec.getLsbD_and,BitVec.getLsbD_not,bounded,named,getLsbD_toWord _ _ bounded]
      rw [getLsbD_known i bounded] at named
      simp only [Bool.or_eq_false_iff,decide_eq_false_iff_not] at named
      simp [named]

theorem ofWord_toWord (flags : LayoutFlags) : ofWord flags.toWord = flags := by
  have rest := undefined_toWord flags
  obtain ⟨⟨across,down⟩,⟨width,height⟩,forceBreak,isBreak,floating,stacked,undefined,outside⟩ := flags
  have clear := getLsbD_outside undefined known outside
  simp only [ofWord,mk.injEq,rest]
  simp only [getLsbD_toWord _ 0 (by decide),getLsbD_toWord _ 1 (by decide),
    getLsbD_toWord _ 2 (by decide),getLsbD_toWord _ 3 (by decide),getLsbD_toWord _ 4 (by decide),
    getLsbD_toWord _ 6 (by decide),getLsbD_toWord _ 8 (by decide),getLsbD_toWord _ 9 (by decide),
    getLsbD_toWord _ 10 (by decide),getLsbD_toWord _ 11 (by decide),
    clear 0 (by decide),clear 1 (by decide),clear 2 (by decide),clear 3 (by decide),
    clear 4 (by decide),clear 6 (by decide),clear 8 (by decide),clear 9 (by decide),
    clear 10 (by decide),clear 11 (by decide)]
  simp [Anchor.ofBits_bits]

end LayoutFlags
end BoxLayout
