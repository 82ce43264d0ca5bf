import BoxLayout.Proofs.Layout.Unwrapped

namespace BoxLayout

-- Layouts with the axes exchanged. A pass on one axis of a tree is the pass on the
-- other axis of the exchanged tree, as long as nothing wraps: the first axis also
-- drops the break markers, and only wrapping columns are done twice.

def Arrangement.swap : Arrangement → Arrangement
  | .free => .free
  | .row => .column
  | .column => .row
  | .rowWrap => .columnWrap
  | .columnWrap => .rowWrap

theorem Arrangement.primaryAxis?_swap (arrangement : Arrangement) (axis : Axis) :
    arrangement.swap.primaryAxis? = some axis.other ↔ arrangement.primaryAxis? = some axis := by
  cases arrangement <;> cases axis <;> decide

theorem ContainerFlags.arrangement_swap (flags : ContainerFlags) : flags.swap.arrangement = flags.arrangement.swap := by
  unfold arrangement swap
  dsimp only
  cases flags.row <;> cases flags.column <;> cases flags.wrap <;> rfl

namespace Box
variable {a b : Box} {axis : Axis}

theorem swap_withStart (b : Box) (axis : Axis) (value : Single) :
    (b.withStart axis value).swap = b.swap.withStart axis.other value := by cases axis <;> rfl

theorem swap_withExtent (b : Box) (axis : Axis) (value : Single) :
    (b.withExtent axis value).swap = b.swap.withExtent axis.other value := by cases axis <;> rfl

theorem swap_withContent (b : Box) (axis : Axis) (value : Single) :
    (b.withContent axis value).swap = b.swap.withContent axis.other value := by cases axis <;> rfl

theorem arrangement_swap (b : Box) : b.swap.arrangement = b.arrangement.swap := b.container.arrangement_swap

theorem matches_swap (unwrapped : b.container.wrap = false) (axis : Axis) : Matches axis axis.other b b.swap := by
  have wraps := wraps_unwrapped unwrapped
  refine ⟨?_,?_,?_,?_,rfl,rfl,?_,?_,?_,rfl,rfl,rfl,?_,?_,?_,?_,?_,?_,?_,?_⟩
  · rw [arrangement_swap,Arrangement.primaryAxis?_swap]
  · exact wraps.trans (wraps_unwrapped (b := b.swap) unwrapped).symm
  · rw [arrangement_swap]
    cases b.arrangement <;> decide
  · rw [arrangement_swap]
    revert wraps
    cases b.arrangement <;> decide
  all_goals cases axis <;> rfl

theorem swap_transfer (axis : Axis) : Transfer axis axis.other fun a b => a.container.wrap = false ∧ a.swap = b where
  settings := by
    rintro a _ ⟨unwrapped,rfl⟩
    exact matches_swap unwrapped axis
  start := by
    rintro a _ ⟨_,rfl⟩
    cases axis <;> rfl
  extent := by
    rintro a _ ⟨_,rfl⟩
    cases axis <;> rfl
  minimum := by
    rintro a _ ⟨_,rfl⟩
    cases axis <;> rfl
  isBreak := by
    rintro a _ ⟨_,rfl⟩
    rfl
  withStart := by
    rintro a _ ⟨unwrapped,rfl⟩ value
    exact ⟨unwrapped,swap_withStart a axis value⟩
  withExtent := by
    rintro a _ ⟨unwrapped,rfl⟩ value
    exact ⟨unwrapped,swap_withExtent a axis value⟩
  withBreak := by
    rintro a _ ⟨unwrapped,rfl⟩ value
    exact ⟨unwrapped,rfl⟩

theorem Unbroken.swap (whole : b.Unbroken) : b.swap.Unbroken := ⟨whole.wrap,whole.isBreak⟩

-- Markers are dropped on one axis of the two, so there must be none.
theorem swap_sizing (axis : Axis) : Sizing axis axis.other false (fun a b => a.Unbroken ∧ a.swap = b)
    fun a b => a.container.wrap = false ∧ a.swap = b where
  settings := by
    rintro a _ ⟨whole,rfl⟩
    exact matches_swap whole.wrap axis
  fixed := by
    rintro a _ kept ⟨whole,rfl⟩ _ _ start extent
    rw [releaseBreak_unbroken whole,releaseBreak_unbroken whole.swap]
    exact ⟨whole.wrap,by rw [swap_withExtent,swap_withStart]⟩
  content := by
    rintro a _ kept ⟨whole,rfl⟩ _ _ start content extent
    rw [releaseBreak_unbroken whole,releaseBreak_unbroken whole.swap]
    exact ⟨whole.wrap,by rw [swap_withExtent,swap_withContent,swap_withStart]⟩

theorem SameKept.swap (kept : SameKept a b) : SameKept a.swap b.swap := by
  have content : ∀ axis, 0 < a.swap.fixedSize.get axis → a.swap.contentSize.get axis = b.swap.contentSize.get axis := by
    intro axis fixed
    have there := kept.content axis.other
    cases axis <;> exact there fixed
  obtain ⟨container,flags,margins,padding,fixedSize,minimumSize,maximumSize,floatingPosition,_⟩ := kept.inputs
  refine ⟨⟨congrArg ContainerFlags.swap container,congrArg LayoutFlags.swap flags,congrArg Spacing.swap margins,
    congrArg Spacing.swap padding,congrArg PerAxis.swap fixedSize,congrArg PerAxis.swap minimumSize,
    congrArg PerAxis.swap maximumSize,congrArg PerAxis.swap floatingPosition,?_⟩,content⟩
  exact fun axis fixed _ => content axis fixed

end Box

namespace Tree
variable {t u : Tree Box} {axis : Axis}

theorem related_map_swap {R : Box → Box → Prop} (each : ∀ b ∈ t.preorder, R b b.swap) : Related R t (t.map Box.swap) := by
  have mapped : Related R (t.map id) (t.map Box.swap) := Related.maps.mpr each
  rwa [map_id] at mapped

theorem passAxis_swap (axis : Axis) (whole : t.Unbroken) :
    (t.map Box.swap).passAxis false none axis.other = (t.passAxis false none axis).map Box.swap := by
  have before : Related (fun a b : Box => a.Unbroken ∧ a.swap = b) t (t.map Box.swap) :=
    related_map_swap fun b member => ⟨whole b member,rfl⟩
  have sized : Related (fun a b : Box => a.container.wrap = false ∧ a.swap = b) (t.sized axis false false)
      ((t.map Box.swap).sized axis.other false false) :=
    (Box.swap_sizing axis).sized (Box.swap_transfer axis) before nofun
  have arranged := (Box.swap_transfer axis).arrange none sized.value sized
  exact (arranged.imp fun _ _ => And.right).map_eq.symm

theorem pass_swap (whole : t.Unbroken) : (t.map Box.swap).pass false none = (t.pass false none).map Box.swap := by
  have one : (t.map Box.swap).passAxis false none .x = (t.passAxis false none .y).map Box.swap :=
    passAxis_swap .y whole
  have two : ((t.passAxis false none .y).map Box.swap).passAxis false none .y =
      ((t.passAxis false none .y).passAxis false none .x).map Box.swap := passAxis_swap .x whole.passAxis
  change ((t.map Box.swap).passAxis false none .x).passAxis false none .y =
    ((t.passAxis false none .x).passAxis false none .y).map Box.swap
  rw [one,two,passAxis_comm whole]

theorem layOut_swap (unwrapped : ∀ b ∈ t.preorder, b.container.wrap = false)
    (exchanged : Related (fun a b => Box.SameKept a.swap b) t u) : u.layOut none = (t.layOut none).map Box.swap := by
  -- A layout drops the markers it finds, so the same tree without them serves as well.
  let clear := t.map (·.withBreak false)
  have cleared : Related Box.SameKept t clear := by
    have mapped : Related Box.SameKept (t.map id) clear :=
      Related.maps.mpr fun b _ => (Box.SameKept.refl b).withBreak false
    rwa [map_id] at mapped
  have whole : clear.Unbroken := by
    intro b member
    rw [preorder_map,List.mem_map] at member
    obtain ⟨a,inside,rfl⟩ := member
    exact ⟨unwrapped a inside,rfl⟩
  have back : Related (fun a b : Box => b.swap = a) (clear.map Box.swap) clear :=
    (related_map_swap fun _ _ => rfl : Related (fun a b : Box => a.swap = b) clear _).symm fun _ _ => id
  have turned : Related (fun a b => Box.SameKept a.swap b) clear u :=
    (cleared.symm fun _ _ => Box.SameKept.symm).trans exchanged fun _ _ _ one two => one.swap.trans two
  have same : Related Box.SameKept (clear.map Box.swap) u :=
    back.trans turned fun _ _ _ one two => one ▸ two
  have swapped : ∀ b ∈ (clear.map Box.swap).preorder, b.container.wrap = false := by
    refine (back.symm fun _ _ => id).all whole fun flipped here => ?_
    rw [← flipped]
    exact here.wrap
  calc
    u.layOut none = (clear.map Box.swap).layOut none := (layOut_eq same fun held => absurd rfl held.1).symm
    _ = (clear.map Box.swap).pass false none := layOut_unwrapped swapped
    _ = (clear.pass false none).map Box.swap := pass_swap whole
    _ = (clear.layOut none).map Box.swap := by rw [layOut_unwrapped fun b member => (whole b member).wrap]
    _ = (t.layOut none).map Box.swap := by rw [layOut_eq cleared fun held => absurd rfl held.1]

end Tree
end BoxLayout
