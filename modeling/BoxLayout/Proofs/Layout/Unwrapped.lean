import BoxLayout.Proofs.Layout.KeptRuns

namespace BoxLayout

-- Layouts in which nothing wraps. No run is ever cut, so a pass leaves all flags as
-- they are, and the axes do not see one another: either of them may come first.

namespace Box
variable {a b : Box} {axis other : Axis} {known : Axis → Prop} {xs : List Box}

structure Unbroken (b : Box) : Prop where
  wrap : b.container.wrap = false
  isBreak : b.flags.isBreak = false

def bothFlags (b : Box) : ContainerFlags × LayoutFlags := (b.container,b.flags)

theorem Unbroken.of_flags (whole : a.Unbroken) (same : a.bothFlags = b.bothFlags) : b.Unbroken := by
  obtain ⟨container,flags⟩ := Prod.mk.inj same
  exact ⟨container ▸ whole.wrap,flags ▸ whole.isBreak⟩

theorem wraps_unwrapped (unwrapped : b.container.wrap = false) : b.arrangement.wraps = false := by
  unfold arrangement ContainerFlags.arrangement
  rw [unwrapped]
  cases b.container.row <;> cases b.container.column <;> rfl

theorem flags_overlaidIn (span : Span) : (b.overlaidIn axis span).bothFlags = b.bothFlags :=
  (congrArg bothFlags (b.unplaced_overlaidIn axis span) :)

theorem flags_squeezedIn (span : Span) (constrained : Bool) :
    (b.squeezedIn axis span constrained).bothFlags = b.bothFlags := rfl

theorem flags_floatedIn (span : Span) : (b.floatedIn axis span).bothFlags = b.bothFlags :=
  (congrArg bothFlags (b.unplaced_floatedIn axis span) :)

theorem flags_clippedTo (clip : Option Span) : (b.clippedTo axis clip).bothFlags = b.bothFlags :=
  (congrArg bothFlags (b.unplaced_clippedTo axis clip) :)

theorem flags_sized : (b.sized axis xs).bothFlags = b.bothFlags := by
  unfold sized
  dsimp only
  split <;> rfl

theorem releaseBreak_unbroken (whole : b.Unbroken) (axis : Axis) (kept : Bool) : b.releaseBreak axis kept = b := by
  unfold releaseBreak
  split
  · exact Tree.withBreak_of_clear whole.isBreak
  · rfl

theorem map_flags {change : Box → Box} (same : ∀ b, (change b).bothFlags = b.bothFlags) (xs : List Box) :
    (xs.map change).map bothFlags = xs.map bothFlags := by
  rw [List.map_map]
  exact List.map_congr_left fun b _ => same b

theorem build_unwrapped (axis : Axis) (space : Single) (run : Run) (xs : List Box) : ∃ whole : Run,
    Run.build axis space false run xs = [whole] ∧ whole.members = run.members ++ xs := by
  induction xs generalizing run with
  | nil => exact ⟨run,rfl,(List.append_nil _).symm⟩
  | cons b rest ih =>
      simp only [Run.build]
      split
      · obtain ⟨whole,built,members⟩ := ih (run.pass b)
        exact ⟨whole,built,by rw [members,Run.pass,List.append_assoc]; rfl⟩
      · rw [if_neg fun wraps => Bool.false_ne_true wraps.1]
        obtain ⟨whole,built,members⟩ := ih (run.accept axis b)
        exact ⟨whole,built,by rw [members,Run.accept,List.append_assoc]; rfl⟩

theorem flags_placeFrom (shares : Run.Shares) (bonus cursor gap : Single) (xs : List Box) :
    (shares.placeFrom axis bonus cursor gap xs).map bothFlags = xs.map bothFlags := by
  induction xs generalizing cursor gap with
  | nil => rfl
  | cons b rest ih =>
      simp only [Run.Shares.placeFrom]
      split
      · rw [List.map_cons,List.map_cons,ih]
      · rw [List.map_cons,List.map_cons,ih]
        rfl

theorem flags_stackChildren (span : Span) (alignment : Alignment) (constrained : Bool) (xs : List Box) :
    (stackChildren axis span alignment false constrained xs).map bothFlags = xs.map bothFlags := by
  obtain ⟨whole,built,members⟩ := build_unwrapped axis span.space .empty xs
  have placed : stackChildren axis span alignment false constrained xs =
      (whole.place axis span alignment false true).map fun b =>
        if b.flags.stacked && !b.flags.floating then b.squeezedIn axis span constrained else b := by
    simp only [stackChildren,Bool.false_eq_true,if_false,built]
    rfl
  rw [placed,map_flags,Run.place,flags_placeFrom,members]
  · rfl
  · intro b
    split <;> rfl

theorem flags_squeezeChildren (span : Span) (constrained : Bool) (xs : List Box) :
    (squeezeChildren axis span constrained xs).map bothFlags = xs.map bothFlags := by
  refine map_flags (fun b => ?_) xs
  split <;> rfl

theorem flags_squeezeRuns (constrained : Bool) (offset : Single) (runs : List (List Box)) :
    (squeezeRuns axis constrained offset runs).map bothFlags = runs.flatten.map bothFlags := by
  induction runs generalizing offset with
  | nil => rfl
  | cons run rest ih =>
      rw [squeezeRuns,List.map_append,flags_squeezeChildren,ih,List.flatten_cons,List.map_append]

def Uncut (axis : Axis) (b : Box) : Prop := b.arrangement.primaryAxis? = some axis → b.arrangement.wraps = false

theorem Uncut.of_flags (uncut : a.Uncut axis) (same : a.bothFlags = b.bothFlags) : b.Uncut axis := by
  have container : a.container = b.container := (Prod.mk.inj same).1
  unfold Uncut arrangement at uncut ⊢
  rwa [← container]

theorem uncut_unwrapped (unwrapped : b.container.wrap = false) : b.Uncut axis := fun _ => wraps_unwrapped unwrapped

theorem flags_placeChildren (uncut : b.Uncut axis) (xs : List Box) :
    (b.placeChildren axis xs).map bothFlags = xs.map bothFlags := by
  simp only [placeChildren]
  split
  · rename_i stacked
    rw [uncut stacked]
    exact flags_stackChildren _ _ _ xs
  · split
    · rw [flags_squeezeRuns,flatten_splitBefore]
    · split
      · refine map_flags (fun b => ?_) xs
        split
        · rfl
        · exact flags_overlaidIn _
      · exact flags_squeezeChildren _ _ xs

theorem flags_settled (uncut : b.Uncut axis) (xs : List Box) : (b.settled axis xs).map bothFlags = xs.map bothFlags := by
  rw [settled,map_flags,flags_placeChildren uncut]
  intro child
  split
  · exact flags_floatedIn _
  · rfl

structure SameOn (axis : Axis) (a b : Box) : Prop where
  start : a.start axis = b.start axis
  extent : a.extent axis = b.extent axis
  content : a.contentSize.get axis = b.contentSize.get axis

theorem Agree.sameOn (agree : Agree known a b) (kept : SameKept a b) (here : known axis) : SameOn axis a b := by
  refine ⟨agree.start axis here,agree.extent axis here,?_⟩
  by_cases fixed : 0 < a.fixedSize.get axis
  · exact kept.content axis fixed
  · exact agree.content axis here fixed

namespace SameOn

theorem refl (b : Box) : SameOn axis b b := ⟨rfl,rfl,rfl⟩

theorem symm (same : SameOn axis a b) : SameOn axis b a := ⟨same.start.symm,same.extent.symm,same.content.symm⟩

theorem trans {c : Box} (one : SameOn axis a b) (two : SameOn axis b c) : SameOn axis a c :=
  ⟨one.start.trans two.start,one.extent.trans two.extent,one.content.trans two.content⟩

theorem writing (apart : other ≠ axis) : Writing axis (SameOn other) where
  withStart same value := ⟨by rw [start_withStart,if_neg apart,same.start],same.extent,same.content⟩
  withExtent same value := ⟨same.start,by rw [extent_withExtent,if_neg apart,same.extent],same.content⟩
  withBreak same value := ⟨same.start,same.extent,same.content⟩
  withContent same _ value := ⟨same.start,same.extent,by rw [content_withContent,if_neg apart,same.content]⟩

end SameOn

theorem eq_of_sameOn (kept : SameKept a b) (isBreak : a.flags.isBreak = b.flags.isBreak) (same : ∀ axis, SameOn axis a b) :
    a = b :=
  Agree.eq ⟨kept.inputs,isBreak,fun axis _ => (same axis).start,fun axis _ => (same axis).extent,
    fun axis _ _ => (same axis).content⟩ kept

end Box

namespace Tree
variable {t u : Tree Box} {axis other : Axis} {around : Option Surround} {clip : Option Span} {b : Box}

def Unbroken (t : Tree Box) : Prop := ∀ b ∈ t.preorder, b.Unbroken

theorem unbroken_node {children : List (Tree Box)} :
    (node b children).Unbroken ↔ b.Unbroken ∧ ∀ tree ∈ children, tree.Unbroken := by
  simp only [Unbroken,preorder_node,List.mem_cons,List.mem_flatMap]
  constructor
  · intro all
    exact ⟨all b (.inl rfl),fun tree member c inside => all c (.inr ⟨tree,member,inside⟩)⟩
  · rintro ⟨here,below⟩ c (rfl | ⟨tree,member,inside⟩)
    · exact here
    · exact below tree member c inside

theorem Unbroken.of_flags (whole : t.Unbroken) (same : u.map Box.bothFlags = t.map Box.bothFlags) : u.Unbroken := by
  intro b member
  have listed : b.bothFlags ∈ (u.map Box.bothFlags).preorder := by
    rw [preorder_map]
    exact List.mem_map_of_mem member
  rw [same,preorder_map,List.mem_map] at listed
  obtain ⟨a,inside,flags⟩ := listed
  exact (whole a inside).of_flags flags

theorem flags_sizedTree (axis : Axis) (kept : Bool) (whole : t.Unbroken) :
    (t.sized axis false kept).map Box.bothFlags = t.map Box.bothFlags := by
  induction t generalizing kept with
  | node value children ih =>
      obtain ⟨here,below⟩ := unbroken_node.mp whole
      rw [sized_node]
      dsimp only
      rw [map_node,map_node,Box.flags_sized,Box.releaseBreak_unbroken here,List.map_map]
      congr 1
      exact List.map_congr_left fun tree member => ih tree member _ (below tree member)

theorem flags_arrange (uncut : ∀ b ∈ t.preorder, b.Uncut axis) (same : b.bothFlags = t.value.bothFlags) :
    (t.arrange axis clip b).map Box.bothFlags = t.map Box.bothFlags := by
  induction t generalizing clip b with
  | node value children ih =>
      rw [preorder_node] at uncut
      have below : ∀ tree ∈ children, ∀ b ∈ tree.preorder, b.Uncut axis := fun tree member b inside =>
        uncut b (List.mem_cons_of_mem _ (List.mem_flatMap.mpr ⟨tree,member,inside⟩))
      have clipped : (b.clippedTo axis clip).bothFlags = value.bothFlags := (Box.flags_clippedTo clip).trans same
      have settled := Box.flags_settled ((uncut value List.mem_cons_self).of_flags clipped.symm) (children.map Tree.value)
      have arranged : ∀ (clip : Option Span) (boxes : List Box),
          boxes.map Box.bothFlags = (children.map Tree.value).map Box.bothFlags →
            (arrangeAll axis clip boxes children).map (map Box.bothFlags) = children.map (map Box.bothFlags) := by
        clear settled clipped same uncut
        intro clip boxes placed
        induction children generalizing boxes with
        | nil => cases boxes <;> rfl
        | cons tree rest more =>
            cases boxes with
            | nil => cases placed
            | cons first boxes =>
                obtain ⟨one,others⟩ := List.cons.inj placed
                rw [arrangeAll,List.map_cons,List.map_cons,ih tree List.mem_cons_self (below tree List.mem_cons_self) one,
                  more (fun tree member => ih tree (List.mem_cons_of_mem _ member))
                    (fun tree member => below tree (List.mem_cons_of_mem _ member)) boxes others]
      rw [arrange_node]
      dsimp only
      rw [map_node,map_node,clipped,arranged _ _ settled]

theorem unplaced_rooted (before : Single) (b : Box) : (rooted around axis before b).unplaced = b.unplaced := by
  cases around with
  | none => rfl
  | some parent =>
      unfold rooted
      dsimp only
      split
      · exact b.unplaced_floatedIn axis _
      · rfl

theorem flags_rooted (before : Single) (b : Box) : (rooted around axis before b).bothFlags = b.bothFlags :=
  (congrArg Box.bothFlags (unplaced_rooted before b) :)

theorem flags_root_passAxis (t : Tree Box) (keep : Bool) (around : Option Surround) (axis : Axis) :
    (t.passAxis keep around axis).value.bothFlags = (t.value.releaseBreak axis false).bothFlags := by
  unfold passAxis
  rw [value_arrange,Box.flags_clippedTo,flags_rooted]
  cases t
  rw [sized_node]
  exact Box.flags_sized

theorem isBreak_root_pass (t : Tree Box) (keep : Bool) (around : Option Surround) : (t.pass keep around).value.flags.isBreak = false := by
  have down := congrArg Prod.snd (flags_root_passAxis (t.passAxis keep around .x) keep around .y)
  have across := congrArg Prod.snd (flags_root_passAxis t keep around .x)
  exact congrArg LayoutFlags.isBreak (down.trans across)

theorem isBreak_root_layOut (t : Tree Box) (around : Option Surround) : (t.layOut around).value.flags.isBreak = false := by
  unfold layOut
  dsimp only
  split
  · exact isBreak_root_pass _ true around
  · exact isBreak_root_pass t false around

theorem flags_passAxis (whole : t.Unbroken) :
    (t.passAxis false around axis).map Box.bothFlags = t.map Box.bothFlags := by
  have sized := flags_sizedTree axis false whole
  unfold passAxis
  have uncut : ∀ b ∈ (t.sized axis false false).preorder, b.Uncut axis := fun b member =>
    Box.uncut_unwrapped (whole.of_flags sized b member).wrap
  exact (flags_arrange uncut (flags_rooted _ _)).trans sized

theorem Unbroken.passAxis (whole : t.Unbroken) : (t.passAxis false around axis).Unbroken :=
  whole.of_flags (flags_passAxis whole)

theorem Unbroken.agree (one : t.Unbroken) (two : u.Unbroken) (related : Related Box.SameInputs t u) :
    Related (Box.Agree fun _ => False) t u := by
  refine related.of_rows fun row member => ?_
  obtain ⟨left,right⟩ := List.of_mem_zip member
  exact ⟨List.forall₂_zip related.preorder member,(one _ left).isBreak.trans (two _ right).isBreak.symm,nofun,nofun,nofun⟩

theorem sameOn_passAxis (t : Tree Box) (keep : Bool) (around : Option Surround) (apart : other ≠ axis) :
    Related (Box.SameOn other) t (t.passAxis keep around axis) :=
  (Box.SameOn.writing apart).passAxis keep around (.refl Box.SameOn.refl t)

theorem sameOn_passAxis_after (whole : t.Unbroken) (axis : Axis) : Related (Box.SameOn axis)
    (t.passAxis false none axis) ((t.passAxis false none axis.other).passAxis false none axis) := by
  have first := passAxis_kept t false none axis.other
  have inputs := whole.agree whole.passAxis (first.imp fun _ _ => Box.SameKept.inputs)
  have agree := agree_passAxis (sizing_again axis false) (.inr rfl) inputs fun held => absurd rfl held.1
  have back := (passAxis_kept t false none axis).symm fun _ _ => Box.SameKept.symm
  have kept := (back.trans first fun _ _ _ => Box.SameKept.trans).trans (passAxis_kept _ false none axis)
    fun _ _ _ => Box.SameKept.trans
  exact (agree.both kept).imp fun _ _ both => both.1.sameOn both.2 (.inr rfl)

theorem passAxis_comm (whole : t.Unbroken) : (t.passAxis false none .y).passAxis false none .x =
    (t.passAxis false none .x).passAxis false none .y := by
  have same : ∀ axis, Related (Box.SameOn axis) ((t.passAxis false none axis).passAxis false none axis.other)
      ((t.passAxis false none axis.other).passAxis false none axis) := by
    intro axis
    have apart : axis ≠ axis.other := by cases axis <;> nofun
    have still := (sameOn_passAxis (t.passAxis false none axis) false none apart).symm fun _ _ => Box.SameOn.symm
    exact still.trans (sameOn_passAxis_after whole axis) fun _ _ _ => Box.SameOn.trans
  have across := (same .x).symm fun _ _ => Box.SameOn.symm
  have kept : ∀ first second, Related Box.SameKept t ((t.passAxis false none first).passAxis false none second) :=
    fun first second => (passAxis_kept t false none first).trans (passAxis_kept _ false none second)
      fun _ _ _ => Box.SameKept.trans
  have both := ((kept .y .x).symm fun _ _ => Box.SameKept.symm).trans (kept .x .y) fun _ _ _ => Box.SameKept.trans
  have inputs := whole.passAxis.passAxis.agree whole.passAxis.passAxis (both.imp fun _ _ => Box.SameKept.inputs)
  refine (((across.both (same .y)).both (inputs.both both)).imp ?_).eq
  rintro a b ⟨⟨across,down⟩,agree,kept⟩
  refine Box.eq_of_sameOn kept agree.isBreak ?_
  rintro (_ | _)
  · exact across
  · exact down

theorem whole_columnless (columnless : ∀ b ∈ t.preorder, b.arrangement ≠ .columnWrap) : ¬t.columnBroke = true := by
  induction t with
  | node value children ih =>
      rw [preorder_node] at columnless
      rw [columnBroke_node]
      rintro (⟨columns,_⟩ | ⟨tree,member,broke⟩)
      · exact columnless value List.mem_cons_self columns
      · refine ih tree member (fun b inside => columnless b ?_) broke
        exact List.mem_cons_of_mem _ (List.mem_flatMap.mpr ⟨tree,member,inside⟩)

theorem columnless_of_kept (columnless : ∀ b ∈ t.preorder, b.arrangement ≠ .columnWrap) (kept : Related Box.SameKept t u) :
    ∀ b ∈ u.preorder, b.arrangement ≠ .columnWrap := by
  refine kept.all columnless fun {a b} same here => ?_
  have arrangement : a.arrangement = b.arrangement := congrArg ContainerFlags.arrangement same.inputs.container
  rwa [← arrangement]

theorem layOut_columnless (columnless : ∀ b ∈ t.preorder, b.arrangement ≠ .columnWrap) :
    t.layOut around = t.pass false around :=
  if_neg (whole_columnless (columnless_of_kept columnless (pass_keeps t false around)))

theorem layOut_unwrapped (unwrapped : ∀ b ∈ t.preorder, b.container.wrap = false) :
    t.layOut around = t.pass false around := by
  refine layOut_columnless fun b member columns => ?_
  have wraps := Box.wraps_unwrapped (unwrapped b member)
  rw [columns] at wraps
  exact absurd wraps (by decide)

end Tree
end BoxLayout
