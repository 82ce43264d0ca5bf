import BoxLayout.Proofs.Layout.Unwrapped

namespace BoxLayout

-- Layouts without wrapping columns. Only those cut runs along the second axis, so what
-- a control was given there is never seen on the first, and of the one pass that a
-- layout then is each axis is settled by itself.

-- All that a layout is given for one axis of a control. Break markers are none of it,
-- and the content size is where a fixed size keeps it and the control may not be crushed.
structure AxisInputs where
  arrangement : Arrangement
  alignment : Alignment
  constrainSize : Bool
  preventCrush : Bool
  anchor : Anchor
  fixed : Bool
  forceBreak : Bool
  floating : Bool
  stacked : Bool
  margins : Single × Single
  padding : Single × Single
  fixedSize : Single
  minimum : Single
  maximum : Single
  floatingPosition : Single
  content : Option Single
  deriving DecidableEq

namespace Box
variable {a b : Box} {axis : Axis}

def inputsAlong (b : Box) (axis : Axis) : AxisInputs where
  arrangement := b.arrangement
  alignment := b.container.alignment
  constrainSize := b.container.constrainSize
  preventCrush := b.container.preventCrush.get axis
  anchor := b.flags.anchor.get axis
  fixed := b.flags.fixed.get axis
  forceBreak := b.flags.forceBreak
  floating := b.flags.floating
  stacked := b.flags.stacked
  margins := ⟨b.margins.start axis,b.margins.finish axis⟩
  padding := ⟨b.padding.start axis,b.padding.finish axis⟩
  fixedSize := b.fixedSize.get axis
  minimum := b.minimum axis
  maximum := b.maximum axis
  floatingPosition := b.floatingPosition.get axis
  content :=
    if 0 < b.fixedSize.get axis ∧ b.container.preventCrush.get axis = true then some (b.contentSize.get axis) else none

theorem matches_of_inputs (same : a.inputsAlong axis = b.inputsAlong axis) : Matches axis axis a b := by
  simp only [inputsAlong,AxisInputs.mk.injEq,Prod.mk.injEq] at same
  obtain ⟨arrangement,alignment,constrainSize,preventCrush,anchor,fixed,forceBreak,floating,stacked,margins,padding,
    fixedSize,minimum,maximum,floatingPosition,_⟩ := same
  constructor <;> first | assumption | simp only [arrangement,margins,padding]

theorem content_of_inputs (same : a.inputsAlong axis = b.inputsAlong axis) (fixed : 0 < a.fixedSize.get axis)
    (uncrushed : a.container.preventCrush.get axis = true) : a.contentSize.get axis = b.contentSize.get axis := by
  have matching := matches_of_inputs same
  have content := congrArg AxisInputs.content same
  simp only [inputsAlong,← matching.fixedSize,← matching.preventCrush,if_pos (And.intro fixed uncrushed)] at content
  exact Option.some.inj content

theorem inputsAlong_withContent (flexible : ¬0 < b.fixedSize.get axis) (value : Single) :
    (b.withContent axis value).inputsAlong axis = b.inputsAlong axis := by
  have unfixed : ¬0 < (b.withContent axis value).fixedSize.get axis := flexible
  simp only [inputsAlong,unfixed,flexible,false_and,if_false]
  rfl

structure SameFound (axis : Axis) (a b : Box) : Prop where
  start : a.start axis = b.start axis
  extent : a.extent axis = b.extent axis
  isBreak : a.flags.isBreak = b.flags.isBreak
  content : ¬0 < a.fixedSize.get axis → a.contentSize.get axis = b.contentSize.get axis

structure AgreeAlong (axis : Axis) (a b : Box) : Prop where
  inputs : a.inputsAlong axis = b.inputsAlong axis
  found : SameFound axis a b

theorem AgreeAlong.minimum (agree : AgreeAlong axis a b) : a.effectiveMinimum axis = b.effectiveMinimum axis := by
  have matching := matches_of_inputs agree.inputs
  simp only [effectiveMinimum,matching.preventCrush,matching.minimum]
  split
  · rename_i uncrushed
    by_cases fixed : 0 < a.fixedSize.get axis
    · rw [content_of_inputs agree.inputs fixed (matching.preventCrush.trans uncrushed)]
    · rw [agree.found.content fixed]
  · rfl

theorem AgreeAlong.transfer (axis : Axis) : Transfer axis axis (AgreeAlong axis) where
  settings agree := matches_of_inputs agree.inputs
  start agree := agree.found.start
  extent agree := agree.found.extent
  minimum agree := agree.minimum
  isBreak agree := agree.found.isBreak
  withStart agree value := ⟨agree.inputs,by simp,agree.found.extent,agree.found.isBreak,agree.found.content⟩
  withExtent agree value := ⟨agree.inputs,agree.found.start,by simp,agree.found.isBreak,agree.found.content⟩
  withBreak agree value := ⟨agree.inputs,agree.found.start,agree.found.extent,rfl,agree.found.content⟩

-- Sizing the first axis drops all markers, as no column keeps any.
theorem sizing_along : Sizing .x .x false (fun a b => a.inputsAlong .x = b.inputsAlong .x) (AgreeAlong .x) where
  settings same := matches_of_inputs same
  fixed {a b kept} same fixed allowed start extent := by
    cases kept with
    | true => cases allowed rfl
    | false => exact ⟨same,by simp [releaseBreak],by simp [releaseBreak],rfl,fun flexible => absurd fixed flexible⟩
  content {a b kept} same flexible allowed start content extent := by
    cases kept with
    | true => cases allowed rfl
    | false =>
        have flexible' : ¬0 < b.fixedSize.get .x := (matches_of_inputs same).fixedSize ▸ flexible
        refine ⟨?_,by simp [releaseBreak],by simp [releaseBreak],rfl,fun _ => by simp⟩
        exact (inputsAlong_withContent (b := (a.withBreak false).withStart .x start) flexible content).trans
          (same.trans (inputsAlong_withContent (b := (b.withBreak false).withStart .x start) flexible' content).symm)

structure Still (axis : Axis) (a b : Box) : Prop where
  kept : SameKept a b
  same : SameOn axis a b
  isBreak : a.flags.isBreak = b.flags.isBreak

theorem uncut_columnless (columnless : b.arrangement ≠ .columnWrap) : b.Uncut .y := by
  unfold Uncut
  revert columnless
  cases b.arrangement <;> decide

end Box

namespace Tree
variable {t u : Tree Box} {keep : Bool} {around : Option Surround}

theorem flags_sized_second (t : Tree Box) (keep kept : Bool) :
    (t.sized .y keep kept).map Box.bothFlags = t.map Box.bothFlags := by
  induction t generalizing kept with
  | node value children ih =>
      have unreleased : value.releaseBreak .y kept = value := if_neg (by simp)
      rw [sized_node,unreleased]
      dsimp only
      rw [map_node,map_node,Box.flags_sized,List.map_map]
      congr 1
      exact List.map_congr_left fun tree member => ih tree member _

-- A pass on the second axis neither drops a marker nor sets one.
theorem flags_passAxis_second (columnless : ∀ b ∈ t.preorder, b.arrangement ≠ .columnWrap) :
    (t.passAxis keep around .y).map Box.bothFlags = t.map Box.bothFlags := by
  have uncut : ∀ b ∈ (t.sized .y keep false).preorder, b.Uncut .y := fun b member =>
    Box.uncut_columnless (columnless_of_kept columnless (sized_kept t .y keep false) b member)
  unfold passAxis
  exact (flags_arrange uncut (flags_rooted _ _)).trans (flags_sized_second t keep false)

theorem agree_passAxis_along (related : Related (fun a b => a.inputsAlong .x = b.inputsAlong .x) t u) :
    Related (Box.AgreeAlong .x) (t.passAxis false none .x) (u.passAxis false none .x) := by
  have sized : Related (Box.AgreeAlong .x) (t.sized .x false false) (u.sized .x false false) :=
    Box.sizing_along.sized (Box.AgreeAlong.transfer .x) related nofun
  exact (Box.AgreeAlong.transfer .x).arrange none sized.value sized

theorem still_passAxis_second (around : Option Surround) (columnless : ∀ b ∈ t.preorder, b.arrangement ≠ .columnWrap) :
    Related (Box.Still .x) t (t.passAxis false around .y) := by
  have apart : Axis.x ≠ .y := by decide
  have flags : Related (fun a b => Box.bothFlags a = Box.bothFlags b) t (t.passAxis false around .y) :=
    (Related.of_map_eq (flags_passAxis_second columnless)).symm fun _ _ same => same.symm
  refine (((passAxis_kept t false around .y).both (sameOn_passAxis t false around apart)).both flags).imp ?_
  rintro a b ⟨⟨kept,same⟩,flags⟩
  exact ⟨kept,same,congrArg (fun flags : ContainerFlags × LayoutFlags => flags.2.isBreak) flags⟩

theorem layOut_along (columnless : ∀ b ∈ t.preorder, b.arrangement ≠ .columnWrap)
    (related : Related (fun a b => a.inputsAlong .x = b.inputsAlong .x) t u) : Related (Box.SameFound .x) (t.layOut none) (u.layOut none) := by
  have columnless' : ∀ b ∈ u.preorder, b.arrangement ≠ .columnWrap :=
    related.all columnless fun same here columns => here ((Box.matches_of_inputs same).columnWrap.mpr columns)
  have across := agree_passAxis_along related
  have left := still_passAxis_second none (columnless_of_kept columnless (passAxis_kept t false none .x))
  have right := still_passAxis_second none (columnless_of_kept columnless' (passAxis_kept u false none .x))
  rw [layOut_columnless columnless,layOut_columnless columnless']
  have met : Related (fun a' b => ∃ a, Box.Still .x a a' ∧ Box.AgreeAlong .x a b) (t.pass false none) (u.passAxis false none .x) :=
    (left.symm fun _ _ => id).trans across fun _ a _ still agree => ⟨a,still,agree⟩
  refine met.trans right ?_
  rintro a' b b' ⟨a,still,agree⟩ still'
  refine ⟨?_,?_,?_,fun flexible => ?_⟩
  · exact still.same.start.symm.trans (agree.found.start.trans still'.same.start)
  · exact still.same.extent.symm.trans (agree.found.extent.trans still'.same.extent)
  · exact still.isBreak.symm.trans (agree.found.isBreak.trans still'.isBreak)
  · rw [← still.kept.inputs.fixedSize] at flexible
    exact still.same.content.symm.trans ((agree.found.content flexible).trans still'.same.content)

end Tree
end BoxLayout
