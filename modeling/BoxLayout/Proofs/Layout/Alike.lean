import BoxLayout.Proofs.Layout.Sized
import BoxLayout.Proofs.Number.Alike

namespace BoxLayout

-- Boxes equal in all but the forced break and the sign of a zero coordinate. Every step of
-- a layout that does not cut runs does the same to both.

structure Span.Alike (span span' : Span) : Prop where
  offset : span.offset.Alike span'.offset
  space : span.space = span'.space

theorem Span.Alike.finish {span span' : Span} (alike : span.Alike span') : span.finish.Alike span'.finish :=
  alike.offset.add (alike.space ▸ Single.Alike.refl _)

namespace Box
variable {a b : Box} {axis other : Axis} {xs ys : List Box} {span span' : Span}

def shape (b : Box) : Box :=
  { b with flags := { b.flags with forceBreak := false }, rect := { b.rect with position := .both 0 } }

structure Alike (a b : Box) : Prop where
  shape : a.shape = b.shape
  start : ∀ axis, (a.start axis).Alike (b.start axis)

theorem shape_withStart (b : Box) (axis : Axis) (value : Single) : (b.withStart axis value).shape = b.shape := by
  cases axis <;> rfl

namespace Alike

theorem same {γ : Type} (alike : Alike a b) (reading : Box → γ) (blind : ∀ b, reading b.shape = reading b := by intro b; rfl) :
    reading a = reading b := by
  rw [← blind a,alike.shape,blind b]

theorem refl (a : Box) : Alike a a := ⟨rfl,fun _ => .refl _⟩

theorem inFlow (alike : Alike a b) : a.flags.inFlow = b.flags.inFlow := alike.same (·.flags.inFlow)
theorem floating (alike : Alike a b) : a.flags.floating = b.flags.floating := alike.same (·.flags.floating)
theorem isBreak (alike : Alike a b) : a.flags.isBreak = b.flags.isBreak := alike.same (·.flags.isBreak)
theorem fills (alike : Alike a b) : a.flags.fills axis = b.flags.fills axis := alike.same (·.flags.fills axis)
theorem container (alike : Alike a b) : a.container = b.container := alike.same Box.container
theorem arrangement (alike : Alike a b) : a.arrangement = b.arrangement := alike.same Box.arrangement
theorem margins (alike : Alike a b) : a.margins = b.margins := alike.same Box.margins
theorem padding (alike : Alike a b) : a.padding = b.padding := alike.same Box.padding
theorem anchor (alike : Alike a b) : a.flags.anchor = b.flags.anchor := alike.same (·.flags.anchor)
theorem extent (alike : Alike a b) : a.extent axis = b.extent axis := alike.same (·.extent axis)
theorem bounded (alike : Alike a b) (size : Single) : a.bounded axis size = b.bounded axis size :=
  alike.same (·.bounded axis size)

theorem withStart (alike : Alike a b) {value value' : Single} (near : value.Alike value') :
    Alike (a.withStart axis value) (b.withStart axis value') := by
  refine ⟨?_,fun other => ?_⟩
  · rw [shape_withStart,shape_withStart]
    exact alike.shape
  · rw [start_withStart,start_withStart]
    split
    · exact near
    · exact alike.start other

theorem withExtent (alike : Alike a b) (value : Single) : Alike (a.withExtent axis value) (b.withExtent axis value) :=
  ⟨congrArg (·.withExtent axis value) alike.shape,alike.start⟩

theorem withContent (alike : Alike a b) (value : Single) : Alike (a.withContent axis value) (b.withContent axis value) :=
  ⟨congrArg (·.withContent axis value) alike.shape,alike.start⟩

theorem withBreak (alike : Alike a b) (value : Bool) : Alike (a.withBreak value) (b.withBreak value) :=
  ⟨congrArg (·.withBreak value) alike.shape,alike.start⟩

theorem releaseBreak (alike : Alike a b) (kept : Bool) : Alike (a.releaseBreak axis kept) (b.releaseBreak axis kept) := by
  unfold Box.releaseBreak
  split
  · exact alike.withBreak false
  · exact alike

theorem contentSpan (alike : Alike a b) (axis : Axis) : (a.contentSpan axis).Alike (b.contentSpan axis) := by
  refine ⟨?_,alike.same (fun b => (b.contentSpan axis).space) fun b => by cases axis <;> rfl⟩
  have offset : ∀ b : Box, (b.contentSpan axis).offset = b.start axis + b.padding.start axis := by
    intro b
    cases axis <;> rfl
  rw [offset,offset,alike.padding]
  exact (alike.start axis).add_right _

theorem overlaidIn (alike : Alike a b) (near : span.Alike span') : Alike (a.overlaidIn axis span) (b.overlaidIn axis span') := by
  unfold Box.overlaidIn
  simp only [alike.margins,alike.anchor,alike.extent,alike.bounded,near.space]
  split
  · exact alike.withStart (near.offset.add_right _)
  · exact alike.withStart (near.offset.add_right _)
  · exact (alike.withExtent _).withStart (near.offset.add_right _)
  · exact alike.withStart (near.offset.add_right _)

theorem squeezedIn (alike : Alike a b) (near : span.Alike span') (constrained : Bool) :
    Alike (a.squeezedIn axis span constrained) (b.squeezedIn axis span' constrained) := by
  have minimum := alike.same (·.effectiveMinimum axis)
  have maximum := alike.same (·.maximum axis)
  unfold Box.squeezedIn
  simp only [alike.margins,alike.anchor,alike.extent,minimum,maximum,near.space]
  exact (alike.withStart (near.offset.add_right _)).withExtent _

theorem floatedIn (alike : Alike a b) (near : span.Alike span') : Alike (a.floatedIn axis span) (b.floatedIn axis span') := by
  have position := alike.same Box.floatingPosition
  unfold Box.floatedIn
  simp only [alike.fills,alike.margins,alike.bounded,position,near.space]
  split
  · exact (alike.withStart ((near.offset.add_right _).add_right _)).withExtent _
  · exact alike.withStart ((near.offset.add_right _).add_right _)

theorem clippedTo (alike : Alike a b) {clip clip' : Option Span} (near : Option.Rel Span.Alike clip clip') :
    Alike (a.clippedTo axis clip) (b.clippedTo axis clip') := by
  cases near with
  | none => exact alike
  | some near =>
      unfold Box.clippedTo
      dsimp only
      rw [alike.extent,(near.finish.sub (alike.start axis)).positivePart]
      split
      · exact alike.withExtent _
      · exact alike

theorem sized (alike : Alike a b) (need : a.contentNeed axis xs = b.contentNeed axis ys) :
    Alike (a.sized axis xs) (b.sized axis ys) := by
  have fixed := alike.same Box.fixedSize
  have maximum := alike.same (·.maximum axis)
  by_cases some : 0 < b.fixedSize.get axis
  · rw [sized_fixed (fixed ▸ some),sized_fixed some,fixed,alike.margins,alike.same (·.minimum axis),maximum]
    exact (alike.withStart (.refl _)).withExtent _
  · rw [sized_content (fixed ▸ some),sized_content some,need,alike.padding,alike.margins,alike.same (·.minimumOver axis _),maximum]
    exact ((alike.withStart (.refl _)).withContent _).withExtent _

end Alike

theorem same_of_alike {γ : Type} (related : List.Forall₂ Alike xs ys) (reading : List Box → γ)
    (blind : ∀ xs, reading (xs.map shape) = reading xs) : reading xs = reading ys := by
  rw [← blind xs,map_eq_of_related related Alike.shape,blind ys]

theorem overlayChildren_alike (related : List.Forall₂ Alike xs ys) (near : span.Alike span') :
    List.Forall₂ Alike (overlayChildren axis span xs) (overlayChildren axis span' ys) := by
  refine List.rel_map ?_ related
  intro a b one
  simp only [one.floating]
  split
  · exact one
  · exact one.overlaidIn near

theorem squeezeChildren_alike (related : List.Forall₂ Alike xs ys) (near : span.Alike span') (constrained : Bool) :
    List.Forall₂ Alike (squeezeChildren axis span constrained xs) (squeezeChildren axis span' constrained ys) := by
  refine List.rel_map ?_ related
  intro a b one
  simp only [one.floating]
  split
  · exact one
  · exact one.squeezedIn near constrained

theorem runNeed_alike (related : List.Forall₂ Alike xs ys) : runNeed axis xs = runNeed axis ys :=
  same_of_alike related (runNeed axis) fun xs => by
    simp only [runNeed,List.filter_map,List.map_map]
    rfl

theorem squeezeRuns_alike {xss yss : List (List Box)} (related : List.Forall₂ (List.Forall₂ Alike) xss yss) (constrained : Bool)
    {offset offset' : Single} (near : offset.Alike offset') :
    List.Forall₂ Alike (squeezeRuns axis constrained offset xss) (squeezeRuns axis constrained offset' yss) := by
  induction related generalizing offset offset' with
  | nil => exact .nil
  | @cons _ run _ _ one _ ih =>
      simp only [squeezeRuns,runNeed_alike one]
      have spans : Span.Alike ⟨offset,runNeed axis run⟩ ⟨offset',runNeed axis run⟩ := ⟨near,rfl⟩
      exact List.rel_append (squeezeChildren_alike one spans constrained) (ih (near.add_right _))

end Box

namespace Run
variable {axis : Axis} {a b : Box} {xs ys : List Box} {run run' : Run} {runs runs' : List Run} {span span' : Span}

theorem extended_alike (same : run.Corresponds Box.Alike run') (alike : Box.Alike a b) :
    run.extended axis a = run'.extended axis b := by
  simp only [extended,same.used,alike.margins,alike.fills,alike.extent]

theorem accept_alike (same : run.Corresponds Box.Alike run') (alike : Box.Alike a b) :
    (run.accept axis a).Corresponds Box.Alike (run'.accept axis b) := by
  have fixed := alike.same (·.flags.fixed)
  refine ⟨List.rel_append same.members (.cons alike .nil),extended_alike same alike,?_,?_,?_⟩
  · simp only [accept,alike.fills,same.fillers]
  · simp only [accept,alike.fills,fixed,same.squeezed]
  · simp only [accept,same.total]

theorem bonus_alike (shares : Shares) (related : List.Forall₂ Box.Alike xs ys) : shares.bonus axis xs = shares.bonus axis ys :=
  Box.same_of_alike related (shares.bonus axis) fun xs => by
    simp only [Shares.bonus,Shares.freed,List.filter_map,List.length_map,List.map_map]
    rfl

theorem placeFrom_alike (shares : Shares) (bonus : Single) {cursor cursor' : Single} (near : cursor.Alike cursor') (gap : Single)
    (related : List.Forall₂ Box.Alike xs ys) :
    List.Forall₂ Box.Alike (shares.placeFrom axis bonus cursor gap xs) (shares.placeFrom axis bonus cursor' gap ys) := by
  induction related generalizing cursor cursor' gap with
  | nil => exact .nil
  | @cons a b _ _ one _ ih =>
      have size := one.same (shares.final axis bonus)
      simp only [Shares.placeFrom,one.inFlow,one.margins,size]
      split
      · exact .cons one (ih near _)
      · exact .cons ((one.withStart (near.add_right _)).withExtent _) (ih ((near.add_right _).add_right _) _)

theorem place_alike (same : run.Corresponds Box.Alike run') (near : span.Alike span') (alignment : Alignment) (wrap last : Bool) :
    List.Forall₂ Box.Alike (run.place axis span alignment wrap last) (run'.place axis span' alignment wrap last) := by
  have flow := filter_related same.members Box.Alike.inFlow
  simp only [place,Transfer.shares_eq same,near.space,bonus_alike _ flow]
  exact placeFrom_alike _ _ near.offset _ same.members

theorem placeAll_alike (same : List.Forall₂ (Corresponds Box.Alike) runs runs') (near : span.Alike span') (alignment : Alignment)
    (wrap : Bool) : List.Forall₂ Box.Alike (placeAll axis span alignment wrap runs) (placeAll axis span' alignment wrap runs') := by
  induction same with
  | nil => exact .nil
  | cons one more ih =>
      cases more with
      | nil => exact place_alike one near alignment wrap true
      | cons next rest => exact List.rel_append (place_alike one near alignment wrap false) ih

end Run
end BoxLayout
