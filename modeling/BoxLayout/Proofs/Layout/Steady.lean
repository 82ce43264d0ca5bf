import BoxLayout.Proofs.Layout.Columnless

namespace BoxLayout

-- Trees that one more pass along an axis leaves as they are. So are their subtrees, each
-- where its parent put it, and a pass over a subtree alone repeats what is there.

def Box.surround (b : Box) : Surround := ⟨.ofAxis b.contentSpan,b.container.constrainSize⟩

namespace Box
variable {a b : Box} {axis : Axis}

theorem floatedIn_withBreak (b : Box) (mark : Bool) (span : Span) :
    (b.withBreak mark).floatedIn axis span = (b.floatedIn axis span).withBreak mark := by
  unfold floatedIn
  dsimp only
  split <;> split <;> first | rfl | contradiction

theorem clippedTo_withBreak (b : Box) (mark : Bool) (clip : Option Span) :
    (b.withBreak mark).clippedTo axis clip = (b.clippedTo axis clip).withBreak mark := by
  cases clip with
  | none => rfl
  | some span =>
      unfold clippedTo
      dsimp only
      split <;> split <;> first | rfl | contradiction

structure Unplaced (a b : Box) : Prop where
  content : b.contentSize = a.contentSize
  floating : b.flags.floating = true → b.withBreak false = a.withBreak false

theorem Unplaced.refl (a : Box) : Unplaced a a := ⟨rfl,fun _ => rfl⟩

theorem Unplaced.seating (axis : Axis) (container : ContainerFlags) : Seating axis container Unplaced where
  overlaid {a b} grounded one span := by
    have same := b.unplaced_overlaidIn axis span
    refine ⟨(congrArg contentSize same :).trans one.content,fun floats => ?_⟩
    have still : (b.overlaidIn axis span).flags.floating = b.flags.floating :=
      (congrArg (fun b : Box => b.flags.floating) same :)
    rw [still,grounded] at floats
    cases floats
  squeezed grounded one span := ⟨one.content,fun floats => absurd (grounded.symm.trans floats) Bool.false_ne_true⟩
  onRun _ a b flows one shares bonus start := by
    refine ⟨one.content,fun floats => ?_⟩
    have still : b.flags.floating = true := floats
    rw [LayoutFlags.inFlow,still] at flows
    cases flows
  withBreak one value := ⟨one.content,one.floating⟩

structure Settled (axis : Axis) (span : Span) (a b : Box) : Prop where
  content : b.contentSize = a.contentSize
  floating : b.flags.floating = true → b.withBreak false = (a.floatedIn axis span).withBreak false

theorem settled_related (c : Box) (axis : Axis) (xs : List Box) :
    List.Forall₂ (Settled axis (c.contentSpan axis)) xs (c.settled axis xs) := by
  refine List.forall₂_map_right_iff.mpr (List.Forall₂.imp ?_ ((Unplaced.seating axis c.container).placeChildren rfl
    (List.forall₂_same.mpr fun child _ => Unplaced.refl child)))
  intro a b one
  split
  · rename_i floats
    refine ⟨(congrArg contentSize (b.unplaced_floatedIn axis _) :).trans one.content,fun _ => ?_⟩
    rw [← floatedIn_withBreak,one.floating floats,floatedIn_withBreak]
  · rename_i grounded
    exact ⟨one.content,fun floats => absurd floats grounded⟩

end Box

namespace Tree
variable {t u : Tree Box} {b : Box} {children : List (Tree Box)} {axis : Axis} {around : Option Surround} {mark : Bool}

structure Steady (axis : Axis) (t : Tree Box) : Prop where
  again : (t.sized axis false false).arrange axis none t.value = t
  content : (t.sized axis false false).value.contentSize = t.value.contentSize

theorem arrange_clipped (t : Tree Box) (clip : Option Span) (b : Box) :
    t.arrange axis clip b = t.arrange axis none (b.clippedTo axis clip) := by
  cases t
  rfl

theorem passAxis_eq (t : Tree Box) (around : Option Surround) (axis : Axis) :
    t.passAxis false around axis = (t.sized axis false false).arrange axis none (t.passAxis false around axis).value := by
  unfold passAxis
  dsimp only
  rw [value_arrange,← arrange_clipped]

theorem mem_of_arrangeAll {R : Box → Box → Prop} {clip : Option Span} {boxes : List Box} {change : Tree Box → Tree Box}
    (placed : List.Forall₂ R ((children.map change).map Tree.value) boxes)
    (again : arrangeAll axis clip boxes (children.map change) = children) :
    ∀ tree ∈ children, ∃ b, R (change tree).value b ∧ (change tree).arrange axis clip b = tree := by
  induction children generalizing boxes with
  | nil => nofun
  | cons first rest ih =>
      cases placed with
      | cons one more =>
          obtain ⟨here,later⟩ := List.cons.inj again
          intro tree member
          rcases List.mem_cons.mp member with rfl | member
          · exact ⟨_,one,here⟩
          · exact ih more later tree member

theorem value_passAxis_floating (floats : t.value.flags.floating = true) (b : Box) (axis : Axis) :
    (t.passAxis false (some b.surround) axis).value =
      ((t.sized axis false false).value.floatedIn axis (b.contentSpan axis)).clippedTo axis
        (if b.container.constrainSize then some (b.contentSpan axis) else none) := by
  have still : (t.sized axis false false).value.flags.floating = true :=
    (sized_kept t axis false false).value.inputs.floating.symm.trans floats
  have span : (Box.surround b).span.get axis = b.contentSpan axis := PerAxis.get_ofAxis _ axis
  unfold passAxis
  dsimp only [rooted]
  rw [value_arrange,if_pos still,Option.bind_some,span]
  rfl

theorem Steady.child (steady : Steady axis (.node b children)) (member : t ∈ children) : Steady axis t ∧
    (t.value.flags.floating = true →
      (t.passAxis false (some b.surround) axis).value.withBreak false = t.value.withBreak false) := by
  have again := steady.again
  rw [sized_node] at again
  obtain ⟨_,again⟩ := Tree.node.inj again
  obtain ⟨placed,settled,arranged⟩ := mem_of_arrangeAll (b.settled_related axis _) again t member
  have value : t.value = placed.clippedTo axis (if b.container.constrainSize then some (b.contentSpan axis) else none) := by
    rw [← arranged,value_arrange]
    rfl
  refine ⟨⟨?_,?_⟩,fun floats => ?_⟩
  · rw [value,← arrange_clipped]
    exact arranged
  · rw [value]
    exact settled.content.symm.trans (congrArg Box.contentSize (placed.unplaced_clippedTo axis _) :).symm
  · have still : placed.flags.floating = true := by
      rw [value] at floats
      exact (congrArg (fun b : Box => b.flags.floating) (placed.unplaced_clippedTo axis _) :).symm.trans floats
    rw [value_passAxis_floating floats,← Box.clippedTo_withBreak,value,← Box.clippedTo_withBreak,settled.floating still]
    rfl

def marked (mark : Bool) : Tree Box → Tree Box
  | .node b children => .node (b.withBreak mark) children

theorem marked_marked (t : Tree Box) (mark mark' : Bool) : (t.marked mark').marked mark = t.marked mark := by
  cases t
  rfl

theorem marked_self (t : Tree Box) : t.marked t.value.flags.isBreak = t := by
  cases t
  rfl

theorem arrange_withBreak (t : Tree Box) (clip : Option Span) (b : Box) (mark : Bool) :
    t.arrange axis clip (b.withBreak mark) = (t.arrange axis clip b).marked mark := by
  rw [arrange_clipped,Box.clippedTo_withBreak,t.arrange_clipped clip]
  cases t
  rfl

theorem arrange_marked (t : Tree Box) (clip : Option Span) (b : Box) (mark : Bool) :
    (t.marked mark).arrange axis clip b = t.arrange axis clip b := by
  cases t
  rfl

theorem sized_second_marked (t : Tree Box) (mark : Bool) :
    (t.marked mark).sized .y false false = (t.sized .y false false).marked mark := by
  obtain ⟨b,children⟩ := t
  have unreleased : ∀ c : Box, c.releaseBreak .y false = c := fun c => if_neg (by simp)
  have sized : ∀ xs, (b.withBreak mark).sized .y xs = (b.sized .y xs).withBreak mark := by
    intro xs
    unfold Box.sized
    dsimp only
    split <;> split <;> first | rfl | contradiction
  rw [marked,sized_node,sized_node]
  dsimp only
  rw [unreleased,unreleased,sized,marked]
  rfl

theorem rooted_withBreak (around : Option Surround) (before : Single) (b : Box) (mark : Bool) :
    rooted around axis before (b.withBreak mark) = (rooted around axis before b).withBreak mark := by
  cases around with
  | none => rfl
  | some parent =>
      unfold rooted
      dsimp only
      rw [Box.floatedIn_withBreak]
      split <;> split <;> first | rfl | contradiction

theorem passAxis_second_marked (t : Tree Box) (around : Option Surround) (mark : Bool) :
    (t.marked mark).passAxis false around .y = (t.passAxis false around .y).marked mark := by
  have value : ∀ u : Tree Box, (u.marked mark).value = u.value.withBreak mark := fun u => by cases u; rfl
  unfold passAxis
  dsimp only
  rw [sized_second_marked,value,value,rooted_withBreak,arrange_withBreak,arrange_marked]
  rfl

-- A pass over the subtree that leaves the rectangle of the root leaves all but its marker.
theorem Steady.passAxis (steady : Steady axis t)
    (start : (t.passAxis false around axis).value.start axis = t.value.start axis)
    (extent : (t.passAxis false around axis).value.extent axis = t.value.extent axis) :
    t.passAxis false around axis = t.marked (t.passAxis false around axis).value.flags.isBreak := by
  have kept := (passAxis_kept t false around axis).value
  have content : (t.passAxis false around axis).value.contentSize = t.value.contentSize := by
    rw [← steady.content]
    unfold Tree.passAxis
    dsimp only
    rw [value_arrange]
    exact (congrArg Box.contentSize ((Box.unplaced_clippedTo _ _ _).trans (unplaced_rooted _ _)) :)
  have value : (t.passAxis false around axis).value =
      t.value.withBreak (t.passAxis false around axis).value.flags.isBreak := by
    refine Box.eq_of_sameOn (kept.symm.withBreak _) rfl fun other => ?_
    by_cases same : other = axis
    · subst other
      exact ⟨start,extent,congrArg (PerAxis.get · axis) content⟩
    · have still := (sameOn_passAxis t false around same).value
      exact ⟨still.start.symm,still.extent.symm,still.content.symm⟩
  calc t.passAxis false around axis
      = (t.sized axis false false).arrange axis none (t.passAxis false around axis).value := passAxis_eq t around axis
    _ = (t.sized axis false false).arrange axis none (t.value.withBreak (t.passAxis false around axis).value.flags.isBreak) :=
        by rw [← value]
    _ = t.marked (t.passAxis false around axis).value.flags.isBreak := by rw [arrange_withBreak,steady.again]

theorem isBreak_passAxis_first (t : Tree Box) (around : Option Surround) :
    (t.passAxis false around .x).value.flags.isBreak = false :=
  congrArg LayoutFlags.isBreak (congrArg Prod.snd (flags_root_passAxis t false around .x))

theorem passAxis_of_rect (steady : Steady .x t)
    (start : (t.passAxis false around .x).value.start .x = t.value.start .x)
    (extent : (t.passAxis false around .x).value.extent .x = t.value.extent .x) :
    t.passAxis false around .x = t.marked false := by
  have across := steady.passAxis start extent
  rwa [isBreak_passAxis_first] at across

theorem pass_eq_second (across : t.passAxis false around .x = t.marked false) :
    t.pass false around = (t.passAxis false around .y).marked false := by
  change (t.passAxis false around .x).passAxis false around .y = _
  rw [across,passAxis_second_marked]

theorem pass_steady (steady : ∀ axis, Steady axis t) (rect : (t.pass false around).value.rect = t.value.rect) :
    t.pass false around = t.marked false := by
  have apart : Axis.x ≠ .y := by decide
  have still := (sameOn_passAxis (t.passAxis false around .x) false around apart).value
  have across := passAxis_of_rect (steady .x) (still.start.trans (congrArg (Rect.start · .x) rect))
    (still.extent.trans (congrArg (Rect.extent · .x) rect))
  have second := pass_eq_second across
  have value : (t.pass false around).value.rect = (t.passAxis false around .y).value.rect := by
    rw [second]
    cases t.passAxis false around .y
    rfl
  rw [value] at rect
  rw [second,(steady .y).passAxis (congrArg (Rect.start · .y) rect) (congrArg (Rect.extent · .y) rect),marked_marked]

theorem rect_pass_floating (steady : ∀ axis, Steady axis t)
    (back : ∀ axis, (t.passAxis false around axis).value.withBreak false = t.value.withBreak false) :
    (t.pass false around).value.rect = t.value.rect := by
  have rect : ∀ axis, (t.passAxis false around axis).value.rect = t.value.rect := fun axis =>
    (congrArg Box.rect (back axis) :)
  have across := passAxis_of_rect (steady .x) (congrArg (Rect.start · .x) (rect .x)) (congrArg (Rect.extent · .x) (rect .x))
  rw [pass_eq_second across,← rect .y]
  cases t.passAxis false around .y
  rfl

theorem passAxis_layOut (columnless : ∀ b ∈ t.preorder, b.arrangement ≠ .columnWrap) (axis : Axis) :
    (t.layOut none).passAxis false none axis = t.layOut none := by
  have again : ((t.layOut none).passAxis false none .x).passAxis false none .y = t.layOut none := by
    rw [layOut_columnless columnless]
    exact pass_first t
  have columnless' := columnless_of_kept columnless (layOut_keeps t none)
  generalize t.layOut none = u at again columnless'
  have across : u.passAxis false none .x = u := by
    have apart : Axis.y ≠ .x := by decide
    have first := (sameOn_passAxis u false none apart).symm fun _ _ => Box.SameOn.symm
    have second := still_passAxis_second none (columnless_of_kept columnless' (passAxis_kept u false none .x))
    rw [again] at second
    refine ((second.both first).imp ?_).eq
    rintro a b ⟨still,down⟩
    refine Box.eq_of_sameOn still.kept still.isBreak ?_
    rintro (_ | _)
    · exact still.same
    · exact down
  cases axis with
  | x => exact across
  | y => rwa [across] at again

theorem steady_layOut (columnless : ∀ b ∈ t.preorder, b.arrangement ≠ .columnWrap) (axis : Axis) :
    Steady axis (t.layOut none) := by
  have again : ((t.layOut none).sized axis false false).arrange axis none ((t.layOut none).sized axis false false).value =
      t.layOut none := passAxis_layOut columnless axis
  have value : ((t.layOut none).sized axis false false).value = (t.layOut none).value :=
    (value_arrange _ none _).symm.trans (congrArg Tree.value again)
  exact ⟨value ▸ again,congrArg Box.contentSize value⟩

end Tree
end BoxLayout
