import BoxLayout.Proofs.Layout.Access
import BoxLayout.Proofs.Layout.Sized
import BoxLayout.Proofs.Layout.Kept

namespace BoxLayout

-- What a layout reads was set by the caller or written earlier in the same layout,
-- so trees that agree in what the caller set are laid out alike.

namespace Box

-- What a layout takes from a box it finds. The content size counts only where a
-- fixed size keeps it and the control may not be crushed below it.
structure SameInputs (a b : Box) : Prop where
  container : a.container = b.container
  flags : { a.flags with isBreak := false } = { b.flags with isBreak := false }
  margins : a.margins = b.margins
  padding : a.padding = b.padding
  fixedSize : a.fixedSize = b.fixedSize
  minimumSize : a.minimumSize = b.minimumSize
  maximumSize : a.maximumSize = b.maximumSize
  floatingPosition : a.floatingPosition = b.floatingPosition
  content : ∀ axis, 0 < a.fixedSize.get axis → a.container.preventCrush.get axis = true →
    a.contentSize.get axis = b.contentSize.get axis

structure Agree (known : Axis → Prop) (a b : Box) : Prop where
  inputs : SameInputs a b
  isBreak : a.flags.isBreak = b.flags.isBreak
  start : ∀ axis, known axis → a.start axis = b.start axis
  extent : ∀ axis, known axis → a.extent axis = b.extent axis
  content : ∀ axis, known axis → ¬0 < a.fixedSize.get axis → a.contentSize.get axis = b.contentSize.get axis

structure SameKept (a b : Box) : Prop where
  inputs : SameInputs a b
  content : ∀ axis, 0 < a.fixedSize.get axis → a.contentSize.get axis = b.contentSize.get axis

variable {a b c : Box} {axis : Axis} {known : Axis → Prop} {value : Single}

namespace SameInputs

theorem refl (a : Box) : SameInputs a a := ⟨rfl,rfl,rfl,rfl,rfl,rfl,rfl,rfl,fun _ _ _ => rfl⟩

theorem symm (same : SameInputs a b) : SameInputs b a := by
  obtain ⟨container,flags,margins,padding,fixedSize,minimumSize,maximumSize,floatingPosition,content⟩ := same
  refine ⟨container.symm,flags.symm,margins.symm,padding.symm,fixedSize.symm,minimumSize.symm,maximumSize.symm,
    floatingPosition.symm,?_⟩
  intro axis fixed uncrushed
  exact (content axis (fixedSize ▸ fixed) (container ▸ uncrushed)).symm

theorem trans (one : SameInputs a b) (two : SameInputs b c) : SameInputs a c := by
  refine ⟨one.container.trans two.container,one.flags.trans two.flags,one.margins.trans two.margins,
    one.padding.trans two.padding,one.fixedSize.trans two.fixedSize,one.minimumSize.trans two.minimumSize,
    one.maximumSize.trans two.maximumSize,one.floatingPosition.trans two.floatingPosition,?_⟩
  intro axis fixed uncrushed
  rw [one.content axis fixed uncrushed]
  exact two.content axis (one.fixedSize ▸ fixed) (one.container ▸ uncrushed)

theorem matching (same : SameInputs a b) (axis : Axis) : Matches axis axis a b := by
  have flags := same.flags
  simp only [LayoutFlags.mk.injEq] at flags
  obtain ⟨anchor,fixed,forceBreak,_,floating,stacked,_⟩ := flags
  have arrangement : a.arrangement = b.arrangement := congrArg ContainerFlags.arrangement same.container
  constructor <;> simp only [arrangement,anchor,fixed,forceBreak,floating,stacked,same.container,same.margins,
    same.padding,same.fixedSize,same.floatingPosition,Box.minimum,Box.maximum,same.minimumSize,same.maximumSize]

theorem floating (same : SameInputs a b) : a.flags.floating = b.flags.floating := (same.matching .x).floating

theorem withStart (same : SameInputs a b) (value : Single) : SameInputs (a.withStart axis value) (b.withStart axis value) := by
  obtain ⟨container,flags,margins,padding,fixedSize,minimumSize,maximumSize,floatingPosition,content⟩ := same
  constructor <;> assumption

theorem withExtent (same : SameInputs a b) (value : Single) :
    SameInputs (a.withExtent axis value) (b.withExtent axis value) := by
  obtain ⟨container,flags,margins,padding,fixedSize,minimumSize,maximumSize,floatingPosition,content⟩ := same
  constructor <;> assumption

theorem withBreak (same : SameInputs a b) (value : Bool) : SameInputs (a.withBreak value) (b.withBreak value) := by
  obtain ⟨container,flags,margins,padding,fixedSize,minimumSize,maximumSize,floatingPosition,content⟩ := same
  constructor <;> assumption

theorem withContent (same : SameInputs a b) (value : Single) :
    SameInputs (a.withContent axis value) (b.withContent axis value) := by
  obtain ⟨container,flags,margins,padding,fixedSize,minimumSize,maximumSize,floatingPosition,content⟩ := same
  refine ⟨container,flags,margins,padding,fixedSize,minimumSize,maximumSize,floatingPosition,?_⟩
  intro other fixed uncrushed
  simp only [content_withContent]
  split
  · rfl
  · exact content other fixed uncrushed

end SameInputs

namespace Agree

theorem minimum (agree : Agree known a b) (here : known axis) : a.effectiveMinimum axis = b.effectiveMinimum axis := by
  have matching := agree.inputs.matching axis
  simp only [effectiveMinimum,matching.preventCrush,matching.minimum]
  split
  · rename_i uncrushed
    by_cases fixed : 0 < a.fixedSize.get axis
    · rw [agree.inputs.content axis fixed (matching.preventCrush.trans uncrushed)]
    · rw [agree.content axis here fixed]
  · rfl

theorem withStart (agree : Agree known a b) (value : Single) :
    Agree known (a.withStart axis value) (b.withStart axis value) := by
  refine ⟨agree.inputs.withStart value,agree.isBreak,?_,agree.extent,agree.content⟩
  intro other done
  simp only [start_withStart,agree.start other done]

theorem withExtent (agree : Agree known a b) (value : Single) :
    Agree known (a.withExtent axis value) (b.withExtent axis value) := by
  refine ⟨agree.inputs.withExtent value,agree.isBreak,agree.start,?_,agree.content⟩
  intro other done
  simp only [extent_withExtent,agree.extent other done]

theorem withBreak (agree : Agree known a b) (value : Bool) : Agree known (a.withBreak value) (b.withBreak value) :=
  ⟨agree.inputs.withBreak value,rfl,agree.start,agree.extent,agree.content⟩

theorem withContent (agree : Agree known a b) (value : Single) :
    Agree known (a.withContent axis value) (b.withContent axis value) := by
  refine ⟨agree.inputs.withContent value,agree.isBreak,agree.start,agree.extent,?_⟩
  intro other done flexible
  simp only [content_withContent,agree.content other done flexible]

theorem releaseBreak (agree : Agree known a b) (kept : Bool) :
    Agree known (a.releaseBreak axis kept) (b.releaseBreak axis kept) := by
  unfold Box.releaseBreak
  split
  · exact agree.withBreak false
  · exact agree

theorem written (agree : Agree known a b) (axis : Axis) (start extent : Single) :
    Agree known ((a.withStart axis start).withExtent axis extent) ((b.withStart axis start).withExtent axis extent) :=
  (agree.withStart start).withExtent extent

theorem settle (agree : Agree known a b) (start : a.start axis = b.start axis) (extent : a.extent axis = b.extent axis)
    (content : ¬0 < a.fixedSize.get axis → a.contentSize.get axis = b.contentSize.get axis) :
    Agree (fun other => known other ∨ other = axis) a b := by
  refine ⟨agree.inputs,agree.isBreak,?_,?_,?_⟩
  · rintro other (done | rfl)
    · exact agree.start other done
    · exact start
  · rintro other (done | rfl)
    · exact agree.extent other done
    · exact extent
  · rintro other (done | rfl)
    · exact agree.content other done
    · exact content

theorem transfer (here : known axis) : Transfer axis axis (Agree known) where
  settings agree := agree.inputs.matching axis
  start agree := agree.start axis here
  extent agree := agree.extent axis here
  minimum agree := agree.minimum here
  isBreak agree := agree.isBreak
  withStart agree := agree.withStart
  withExtent agree := agree.withExtent
  withBreak agree := agree.withBreak

theorem imp {fewer : Axis → Prop} (agree : Agree known a b) (less : ∀ axis, fewer axis → known axis) : Agree fewer a b :=
  ⟨agree.inputs,agree.isBreak,fun axis done => agree.start axis (less axis done),
    fun axis done => agree.extent axis (less axis done),fun axis done => agree.content axis (less axis done)⟩

theorem eq (agree : Agree (fun _ => True) a b) (kept : SameKept a b) : a = b := by
  have rect : a.rect = b.rect := by
    have position := PerAxis.eq_of_get fun axis => agree.start axis trivial
    have size := PerAxis.eq_of_get fun axis => agree.extent axis trivial
    change Rect.mk a.rect.position a.rect.size = Rect.mk b.rect.position b.rect.size
    rw [position,size]
  have content : a.contentSize = b.contentSize := by
    apply PerAxis.eq_of_get
    intro axis
    by_cases fixed : 0 < a.fixedSize.get axis
    · exact kept.content axis fixed
    · exact agree.content axis trivial fixed
  have flags : a.flags = b.flags := by
    have same := agree.inputs.flags
    have isBreak := agree.isBreak
    simp only [LayoutFlags.mk.injEq] at same
    obtain ⟨anchor,fixed,forceBreak,_,floating,stacked,undefined⟩ := same
    rcases ha : a.flags with ⟨⟩
    rcases hb : b.flags with ⟨⟩
    simp_all
  obtain ⟨container,_,margins,padding,fixedSize,minimumSize,maximumSize,floatingPosition,_⟩ := agree.inputs
  rcases a with ⟨⟩
  rcases b with ⟨⟩
  simp only at rect content flags container margins padding fixedSize minimumSize maximumSize floatingPosition
  subst_vars
  rfl

end Agree

namespace SameKept

theorem refl (a : Box) : SameKept a a := ⟨.refl a,fun _ _ => rfl⟩

theorem symm (kept : SameKept a b) : SameKept b a :=
  ⟨kept.inputs.symm,fun axis fixed => (kept.content axis (kept.inputs.fixedSize ▸ fixed)).symm⟩

theorem trans (one : SameKept a b) (two : SameKept b c) : SameKept a c :=
  ⟨one.inputs.trans two.inputs,fun axis fixed =>
    (one.content axis fixed).trans (two.content axis (one.inputs.fixedSize ▸ fixed))⟩

theorem withBreak (kept : SameKept a b) (value : Bool) : SameKept a (b.withBreak value) := by
  obtain ⟨⟨container,flags,margins,padding,fixedSize,minimumSize,maximumSize,floatingPosition,needed⟩,content⟩ := kept
  exact ⟨⟨container,flags,margins,padding,fixedSize,minimumSize,maximumSize,floatingPosition,needed⟩,content⟩

theorem writing (axis : Axis) : Writing axis SameKept where
  withStart := by
    rintro a b ⟨⟨container,flags,margins,padding,fixedSize,minimumSize,maximumSize,floatingPosition,needed⟩,content⟩ value
    exact ⟨⟨container,flags,margins,padding,fixedSize,minimumSize,maximumSize,floatingPosition,needed⟩,content⟩
  withExtent := by
    rintro a b ⟨⟨container,flags,margins,padding,fixedSize,minimumSize,maximumSize,floatingPosition,needed⟩,content⟩ value
    exact ⟨⟨container,flags,margins,padding,fixedSize,minimumSize,maximumSize,floatingPosition,needed⟩,content⟩
  withBreak := withBreak
  withContent := by
    rintro a b ⟨⟨container,flags,margins,padding,fixedSize,minimumSize,maximumSize,floatingPosition,_⟩,content⟩ flexible value
    have unwritten : ∀ other, 0 < a.fixedSize.get other →
        a.contentSize.get other = (b.withContent axis value).contentSize.get other := by
      intro other fixed
      rw [content_withContent,if_neg]
      · exact content other fixed
      · rintro rfl
        exact flexible (fixedSize ▸ fixed)
    exact ⟨⟨container,flags,margins,padding,fixedSize,minimumSize,maximumSize,floatingPosition,
      fun other fixed _ => unwritten other fixed⟩,unwritten⟩

end SameKept

-- Sizing the first axis without keeping breaks needs nothing written before.
theorem SameInputs.release (same : SameInputs a b) :
    Agree (fun _ => False) (a.releaseBreak .x false) (b.releaseBreak .x false) :=
  ⟨same.withBreak false,rfl,nofun,nofun,nofun⟩

theorem agree_sizing {Q : Box → Box → Prop} {keep : Bool} (settings : ∀ {a b}, Q a b → SameInputs a b)
    (release : ∀ {a b kept}, Q a b → (kept = true → keep = true) →
      Agree known (a.releaseBreak axis kept) (b.releaseBreak axis kept)) :
    Sizing axis axis keep Q (Agree fun other => known other ∨ other = axis) where
  settings one := (settings one).matching axis
  fixed {a b kept} one fixed allowed start extent := by
    refine ((release one allowed).written axis start extent).settle (by simp) (by simp) ?_
    intro flexible
    refine absurd fixed ?_
    unfold Box.releaseBreak at flexible
    split at flexible <;> exact flexible
  content one flexible allowed start content extent := by
    refine Agree.settle (((release one allowed).withStart start).withContent content |>.withExtent extent)
      (by simp) (by simp) ?_
    intro _
    exact (content_withContent.trans (if_pos rfl)).trans (content_withContent.trans (if_pos rfl)).symm

end Box
end BoxLayout
