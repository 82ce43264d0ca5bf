import BoxLayout.Proofs.Number.Constrain
import BoxLayout.Proofs.Layout.Nonneg
import BoxLayout.Proofs.Layout.Families

namespace BoxLayout

-- What a run does to the sizes its children were given before. The size pass and the run
-- read the same bounds, so bounding a size once more changes nothing.

theorem Tree.Paired.imp {α β : Type} {P Q : α → List α → β → List β → Prop} {R : α → Prop} {t : Tree α} {u : Tree β}
    (paired : Paired P t u) (each : ∀ a ∈ t.preorder, R a)
    (step : ∀ {a as b bs}, (∀ c ∈ as, R c) → P a as b bs → Q a as b bs) : Paired Q t u := by
  induction t generalizing u with
  | node value children ih =>
      rw [preorder_node,List.forall_mem_cons] at each
      have below : ∀ tree ∈ children, ∀ a ∈ tree.preorder, R a := fun tree member a inside =>
        each.2 a (List.mem_flatMap.mpr ⟨tree,member,inside⟩)
      cases paired with
      | node here deeper =>
          refine .node (step ?_ here) ?_
          · exact List.forall_mem_map.mpr fun tree member => below tree member _ tree.value_mem_preorder
          · exact ((List.forall₂_and_left _ _).mpr ⟨fun tree member => member,deeper⟩).imp fun tree _ both =>
              ih tree both.1 both.2 (below tree both.1)

namespace Box
variable {a b p : Box} {axis : Axis} {children : List Box}

def Measured (axis : Axis) (b : Box) : Prop := ∃ wanted, 0 ≤ wanted ∧ b.extent axis = b.bounded axis wanted

theorem Measured.nonneg (measured : b.Measured axis) : 0 ≤ b.extent axis := by
  obtain ⟨wanted,nonneg,extent⟩ := measured
  rw [extent]
  exact nonneg_constrain nonneg

theorem Measured.bounded_extent (measured : b.Measured axis) : b.bounded axis (b.extent axis) = b.extent axis := by
  obtain ⟨wanted,_,extent⟩ := measured
  rw [extent]
  exact constrain_constrain

theorem measured_content (flexible : ¬0 < a.fixedSize.get axis) (padded : a.Padded axis) : (a.sized axis children).Measured axis := by
  have padding := nonneg_total a.padding axis padded.1 padded.2
  let content := a.contentNeed axis children + a.padding.total axis
  let measured := (a.withStart axis (a.margins.start axis)).withContent axis content
  have sized : a.sized axis children = measured.withExtent axis (measured.bounded axis content) := if_neg flexible
  refine ⟨content,Single.nonneg_add (nonneg_contentNeed a axis children) padding,?_⟩
  rw [sized,extent_withExtent,if_pos rfl]
  rfl

theorem measured_sized (plain : a.Plain axis) (padded : a.Padded axis) : (a.sized axis children).Measured axis := by
  by_cases fixed : 0 < a.fixedSize.get axis
  · refine ⟨a.fixedSize.get axis,Single.le_of_lt fixed,?_⟩
    have uncrushed : a.effectiveMinimum axis = a.minimum axis := if_neg fun crush => plain ⟨fixed,crush⟩
    have bounds : (a.sized axis children).bounded axis (a.fixedSize.get axis) = a.bounded axis (a.fixedSize.get axis) := by
      rw [sized_fixed fixed]
      rfl
    rw [bounds,sized_fixed fixed,extent_withExtent,if_pos rfl,bounded,uncrushed]
  · exact measured_content fixed padded

-- What any size pass finds: as large as the minimum asks for where nothing is fixed, and
-- never more than the run makes of it.
structure Weighed (axis : Axis) (b : Box) : Prop where
  nonneg : 0 ≤ b.extent axis
  grown : ¬0 < b.fixedSize.get axis → IsSet (b.effectiveMinimum axis) → b.effectiveMinimum axis ≤ b.extent axis
  within : b.extent axis ≤ b.bounded axis (b.extent axis)

theorem weighed_sized (padded : a.Padded axis) : (a.sized axis children).Weighed axis := by
  by_cases fixed : 0 < a.fixedSize.get axis
  · rw [sized_fixed fixed]
    have positive : 0 ≤ constrain (a.fixedSize.get axis) (a.minimum axis) (a.maximum axis) := nonneg_constrain (Single.le_of_lt fixed)
    have number := (Single.ne_nan_of_le positive).2
    have raised : IsSet (a.minimum axis) → a.minimum axis ≤ a.effectiveMinimum axis := fun set => by
      unfold effectiveMinimum
      split
      · exact Single.le_max_left set.number
      · exact Single.le_refl set.number
    refine ⟨?_,fun flexible => absurd fixed flexible,?_⟩
    · rwa [extent_withExtent,if_pos rfl]
    · rw [extent_withExtent,if_pos rfl]
      change _ ≤ a.bounded axis _
      calc constrain (a.fixedSize.get axis) (a.minimum axis) (a.maximum axis)
          = constrain (constrain (a.fixedSize.get axis) (a.minimum axis) (a.maximum axis)) (a.minimum axis) (a.maximum axis) :=
            constrain_constrain.symm
        _ ≤ a.bounded axis (constrain (a.fixedSize.get axis) (a.minimum axis) (a.maximum axis)) := constrain_mono_minimum number raised
  · have measured : (a.sized axis children).Measured axis := measured_content fixed padded
    refine ⟨measured.nonneg,fun _ set => ?_,?_⟩
    · obtain ⟨wanted,_,extent⟩ := measured
      rw [extent]
      exact le_constrain set
    · rw [measured.bounded_extent]
      exact Single.le_refl (Single.ne_nan_of_le measured.nonneg).2

-- What becomes of a child in flow that does not fill. Only a fixed size is never touched;
-- where the run has room, or the container wraps, no size changes, but for the sign of a zero.
structure Resized (axis : Axis) (roomy : Prop) (b p : Box) : Prop where
  fixed : 0 < b.fixedSize.get axis → p.extent axis = b.extent axis
  roomy : roomy → (p.extent axis).Same (b.extent axis)
  below : p.extent axis ≤ b.extent axis
  above : IsSet (b.effectiveMinimum axis) → b.effectiveMinimum axis ≤ p.extent axis

structure Free (axis : Axis) (b : Box) : Prop where
  inFlow : b.flags.inFlow = true
  fills : b.flags.fills axis = true
  minimum : ¬IsSet (b.minimum axis)
  maximum : ¬IsSet (b.maximum axis)
  crushable : b.container.preventCrush.get axis = false

theorem Free.of_unplaced (same : p.unplaced = b.unplaced) (free : p.Free axis) : b.Free axis := by
  obtain ⟨inFlow,fills,minimum,maximum,crushable⟩ := free
  have flags : p.flags = b.flags := (congrArg Box.flags same :)
  have container : p.container = b.container := (congrArg Box.container same :)
  have bounds : p.minimum axis = b.minimum axis ∧ p.maximum axis = b.maximum axis :=
    ⟨(congrArg (Box.minimum · axis) same :),(congrArg (Box.maximum · axis) same :)⟩
  rw [flags] at inFlow fills
  rw [bounds.1] at minimum
  rw [bounds.2] at maximum
  rw [container] at crushable
  exact ⟨inFlow,fills,minimum,maximum,crushable⟩

theorem Free.bounded (free : b.Free axis) (size : Single) : b.bounded axis size = size := by
  have minimum : b.effectiveMinimum axis = b.minimum axis := if_neg (by rw [free.crushable]; exact Bool.false_ne_true)
  unfold Box.bounded
  rw [minimum]
  exact constrain_unset free.minimum free.maximum

end Box

namespace Run
variable {axis : Axis} {space : Single} {alignment : Alignment} {wrap last : Bool} {run : Run} {b : Box}

theorem eater_eq_zero (roomy : wrap = true ∨ 0 < space - run.used) : (run.shares space alignment wrap last).eater = 0 := by
  unfold shares
  dsimp only
  split
  · split
    · rfl
    · split
      · rfl
      · cases alignment with
        | justify => dsimp only; split <;> rfl
        | _ => rfl
  · rename_i full
    rw [if_neg fun squeezes => ?_]
    · rfl
    · exact roomy.elim (fun wraps => absurd (squeezes.1.symm.trans wraps) nofun) full

theorem eater_not_pos : ¬0 < (run.shares space alignment wrap last).eater := by
  by_cases roomy : wrap = true ∨ 0 < space - run.used
  · rw [eater_eq_zero roomy]
    decide
  · obtain ⟨unwrapped,full⟩ := not_or.mp roomy
    unfold shares
    dsimp only
    rw [if_neg full]
    split
    · exact Single.not_pos_div full (Single.isNegative_ofNat run.squeezed)
    · decide

namespace Shares
variable {shares : Shares} {bonus : Single}

theorem final_of_not_fills (fills : ¬b.flags.fills axis = true) : shares.final axis bonus b = shares.first axis b :=
  if_neg fun given => fills given.1.1

theorem ideal_le (fills : ¬b.flags.fills axis = true) (lower : ¬0 < shares.eater) (nonneg : 0 ≤ b.extent axis) :
    shares.ideal axis b ≤ b.extent axis := by
  unfold ideal
  rw [if_neg fills]
  split
  · exact Single.le_refl (Single.ne_nan_of_le nonneg).2
  · exact Single.positivePart_add_le nonneg lower

theorem first_le (fills : ¬b.flags.fills axis = true) (lower : ¬0 < shares.eater) (measured : b.Measured axis) :
    shares.first axis b ≤ b.extent axis := by
  rw [← measured.bounded_extent]
  exact constrain_mono (ideal_le fills lower measured.nonneg)

theorem first_fixed (fills : ¬b.flags.fills axis = true) (fixed : b.flags.fixed.get axis = true) (measured : b.Measured axis) :
    shares.first axis b = b.extent axis := by
  unfold first ideal
  rw [if_neg fills,if_pos fixed]
  exact measured.bounded_extent

theorem ideal_same (fills : ¬b.flags.fills axis = true) (even : shares.eater = 0) (nonneg : 0 ≤ b.extent axis) :
    (shares.ideal axis b).Same (b.extent axis) := by
  unfold ideal
  rw [if_neg fills,even]
  split
  · exact Single.same_self (Single.ne_nan_of_le nonneg).2
  · exact Single.same_positivePart nonneg

theorem first_same (fills : ¬b.flags.fills axis = true) (even : shares.eater = 0) (measured : b.Measured axis) :
    (shares.first axis b).Same (b.extent axis) := by
  have bounded : (shares.first axis b).Same (b.bounded axis (b.extent axis)) :=
    constrain_same (ideal_same fills even measured.nonneg)
  rwa [measured.bounded_extent] at bounded

theorem final_free (free : b.Free axis) : shares.final axis bonus b =
    if shares.filler.Same shares.filler ∧ ¬bonus.Same 0 then shares.filler + bonus else shares.filler := by
  have ideal : shares.ideal axis b = shares.filler := if_pos free.fills
  have first : shares.first axis b = shares.filler := by rw [Shares.first,ideal,free.bounded]
  have opens : shares.Open axis b ↔ shares.filler.Same shares.filler := by
    unfold Shares.Open
    rw [first,ideal]
    exact and_iff_right free.fills
  simp only [Shares.final,opens,first,free.bounded]

theorem placeFrom_related (shares : Shares) (axis : Axis) (bonus cursor gap : Single) (xs : List Box) :
    List.Forall₂ (fun b p => p.unplaced = b.unplaced ∧ (b.flags.inFlow = true → p.extent axis = shares.final axis bonus b))
      xs (shares.placeFrom axis bonus cursor gap xs) := by
  induction xs generalizing cursor gap with
  | nil => exact .nil
  | cons b rest ih =>
      simp only [placeFrom]
      split
      · rename_i passes
        exact .cons ⟨rfl,fun flows => absurd (passes.symm.trans flows) Bool.false_ne_true⟩ (ih _ _)
      · exact .cons ⟨rfl,fun _ => (Box.extent_withExtent).trans (if_pos rfl)⟩ (ih _ _)

end Shares

-- The children of a run before and after it was placed: the same ones in their order, those
-- that do not fill resized, and fillers without bounds all of one size.
structure Resizes (axis : Axis) (space : Single) (wrap : Bool) (run : Run) (placed : List Box) : Prop where
  same : List.Forall₂ (fun b p => p.unplaced = b.unplaced) run.members placed
  others : List.Forall₂ (fun b p => b.flags.inFlow = true → ¬b.flags.fills axis = true →
    b.Resized axis (wrap = true ∨ 0 < space - run.used) p) run.members placed
  fillers : ∀ p ∈ placed, ∀ q ∈ placed, p.Free axis → q.Free axis → p.extent axis = q.extent axis

theorem resized_final (alignment : Alignment) (last : Bool) (bonus : Single) {p : Box} (fills : ¬b.flags.fills axis = true) (measured : b.Measured axis)
    (fixed : b.flags.fixed.get axis = decide (0 < b.fixedSize.get axis))
    (extent : p.extent axis = (run.shares space alignment wrap last).final axis bonus b) :
    b.Resized axis (wrap = true ∨ 0 < space - run.used) p := by
  rw [Shares.final_of_not_fills fills] at extent
  refine ⟨fun set => ?_,fun roomy => ?_,?_,fun set => ?_⟩
  · rw [extent]
    exact Shares.first_fixed fills (fixed.trans (decide_eq_true set)) measured
  · rw [extent]
    exact Shares.first_same fills (eater_eq_zero roomy) measured
  · rw [extent]
    exact Shares.first_le fills eater_not_pos measured
  · rw [extent]
    exact le_constrain set

theorem resizes_place (span : Span) (alignment : Alignment) (last : Bool)
    (measured : ∀ b ∈ run.members, b.Measured axis)
    (fixed : ∀ b ∈ run.members, b.flags.fixed.get axis = decide (0 < b.fixedSize.get axis)) :
    run.Resizes axis span.space wrap (run.place axis span alignment wrap last) := by
  unfold place
  dsimp only
  generalize shown : run.shares span.space alignment wrap last = shares
  generalize shares.bonus axis (run.members.filter (·.flags.inFlow)) = bonus
  have related := shares.placeFrom_related axis bonus span.offset shares.lead run.members
  generalize shares.placeFrom axis bonus span.offset shares.lead run.members = placed at related
  refine ⟨related.imp fun _ _ one => one.1,?_,?_⟩
  · refine ((List.forall₂_and_left _ _).mpr ⟨fun b member => member,related⟩).imp fun b p one flows fills => ?_
    refine resized_final alignment last bonus fills (measured b one.1) (fixed b one.1) ?_
    rw [shown]
    exact one.2.2 flows
  · have size : ∀ p ∈ placed, p.Free axis → p.extent axis =
        if shares.filler.Same shares.filler ∧ ¬bonus.Same 0 then shares.filler + bonus else shares.filler := by
      intro p member free
      obtain ⟨b,_,same,extent⟩ := Tree.related_of_mem related member
      have free' := free.of_unplaced same
      rw [extent free'.inFlow,Shares.final_free free']
    intro p one q two free free'
    rw [size p one free,size q two free']

theorem forall_mem_build {P : Box → Prop} (marked : ∀ b, P b → P (b.withBreak true)) {xs : List Box} (all : ∀ b ∈ xs, P b)
    (before : ∀ b ∈ run.members, P b) : ∀ part ∈ build axis space wrap run xs, ∀ b ∈ part.members, P b := by
  induction xs generalizing run with
  | nil =>
      intro part member
      rw [List.mem_singleton.mp member]
      exact before
  | cons b rest ih =>
      obtain ⟨here,later⟩ := List.forall_mem_cons.mp all
      have longer : ∀ next : Run, next.members = run.members ++ [b] → ∀ c ∈ next.members, P c := by
        intro next members
        rw [members]
        exact List.forall_mem_append.mpr ⟨before,List.forall_mem_singleton.mpr here⟩
      simp only [build]
      split
      · exact ih later (longer (run.pass b) rfl)
      · split
        · have first : ∀ c ∈ (empty.accept axis (b.withBreak true)).members, P c :=
            List.forall_mem_singleton.mpr (marked b here)
          exact List.forall_mem_cons.mpr ⟨before,ih later first⟩
        · exact ih later (longer (run.accept axis b) rfl)

end Run

namespace Box
variable {b : Box} {axis : Axis} {children : List Box}

def runsOn (b : Box) (axis : Axis) (children : List Box) : List Run :=
  Run.build axis (b.contentSpan axis).space b.arrangement.wraps .empty
    (if b.arrangement.wraps then children.map (·.withBreak false) else children)

theorem placeChildren_runsOn (stacked : b.arrangement.primaryAxis? = some axis) (children : List Box) :
    b.placeChildren axis children = (Run.placeAll axis (b.contentSpan axis) b.container.alignment b.arrangement.wraps
      (b.runsOn axis children)).map fun child => if child.flags.stacked && !child.flags.floating then
        child.squeezedIn axis (b.contentSpan axis) b.container.constrainSize else child := by
  rw [placeChildren]
  simp only [stacked,if_true]
  rfl

theorem forall_mem_runsOn {P : Box → Prop} (marked : ∀ b value, P b → P (b.withBreak value)) (all : ∀ child ∈ children, P child) :
    ∀ run ∈ b.runsOn axis children, ∀ child ∈ run.members, P child := by
  refine Run.forall_mem_build (fun b => marked b true) ?_ fun _ member => absurd member List.not_mem_nil
  split
  · exact List.forall_mem_map.mpr fun child member => marked child false (all child member)
  · exact all

end Box

-- A container that stacks its children on the axis, and they, as they were sized and as they
-- were placed: what is written for them on each of their runs.
structure RunsResized (axis : Axis) (a : Box) (sized : List Box) (b : Box) (placed : List Box) : Prop where
  arranged : Box.Arranged axis a sized b placed
  stacked : b.placeChildren axis sized = (Run.placeAll axis (b.contentSpan axis) b.container.alignment b.arrangement.wraps
    (b.runsOn axis sized)).map fun child => if child.flags.stacked && !child.flags.floating then
      child.squeezedIn axis (b.contentSpan axis) b.container.constrainSize else child
  runs : ∀ run ∈ b.runsOn axis sized, ∀ last, run.Resizes axis (b.contentSpan axis).space b.arrangement.wraps
    (run.place axis (b.contentSpan axis) b.container.alignment b.arrangement.wraps last)

namespace Box
variable {a b : Box} {axis : Axis}

-- What the inputs of a child are like: not fixed and kept from being crushed at once, the
-- padding not negative, and the marker of a fixed size right.
structure Ready (axis : Axis) (b : Box) : Prop where
  plain : b.Plain axis
  padded : b.Padded axis
  fixed : b.flags.fixed.get axis = decide (0 < b.fixedSize.get axis)

theorem Ready.of_kept (ready : a.Ready axis) (same : SameKept a b) : b.Ready axis := by
  obtain ⟨plain,padded,fixed⟩ := ready
  refine ⟨?_,?_,?_⟩
  · unfold Plain at plain ⊢
    rwa [← same.inputs.fixedSize,← same.inputs.container]
  · unfold Padded at padded ⊢
    rwa [← same.inputs.padding]
  · rw [← same.inputs.fixedSize,← fixed]
    have marker : (a.withBreak false).flags.fixed = (b.withBreak false).flags.fixed := congrArg LayoutFlags.fixed same.inputs.flags
    exact (congrArg (PerAxis.get · axis) marker :).symm

end Box

namespace Tree
variable {t : Tree Box} {axis : Axis}

def axisPasses (around : Option Surround) (t : Tree Box) : List (Bool × Axis × Tree Box) :=
  let first := t.pass false around
  [(false,.x,t),(false,.y,t.passAxis false around .x)] ++
    if first.columnBroke then [(true,.x,first),(true,.y,first.passAxis true around .x)] else []

theorem axisPasses_kept {around : Option Surround} {stage : Bool × Axis × Tree Box} (member : stage ∈ t.axisPasses around) :
    Related Box.SameKept t stage.2.2 := by
  have whole := pass_keeps t false around
  have across := passAxis_kept (t.pass false around) true around .x
  unfold axisPasses at member
  rcases List.mem_append.mp member with first | second
  · rcases List.mem_pair.mp first with rfl | rfl
    · exact .refl Box.SameKept.refl t
    · exact passAxis_kept t false around .x
  · split at second
    · rcases List.mem_pair.mp second with rfl | rfl
      · exact whole
      · exact whole.trans across fun _ _ _ one two => one.trans two
    · cases second

theorem forall_mem_sized {P Q : Box → Prop} (released : ∀ b kept, P b → P (b.releaseBreak axis kept))
    (sized : ∀ b children, P b → Q (b.sized axis children)) (all : ∀ b ∈ t.preorder, P b) (keep kept : Bool) :
    ∀ b ∈ (t.sized axis keep kept).preorder, Q b := by
  induction t generalizing kept with
  | node value children ih =>
      rw [preorder_node,List.forall_mem_cons] at all
      rw [sized_node]
      dsimp only
      rw [preorder_node,List.forall_mem_cons]
      refine ⟨sized _ _ (released value kept all.1),?_⟩
      rw [List.flatMap_map]
      intro b member
      obtain ⟨tree,listed,inside⟩ := List.mem_flatMap.mp member
      exact ih tree listed (fun c under => all.2 c (List.mem_flatMap.mpr ⟨tree,listed,under⟩)) _ b inside

theorem measured_sized (ready : ∀ b ∈ t.preorder, b.Ready axis) (keep kept : Bool) :
    ∀ b ∈ (t.sized axis keep kept).preorder, b.Measured axis := by
  refine forall_mem_sized (fun b kept here => ?_) (fun b children here => Box.measured_sized here.plain here.padded) ready keep kept
  exact here.of_kept ((Box.SameKept.writing axis).releaseBreak (.refl b) kept)

theorem weighed_sized (padded : ∀ b ∈ t.preorder, b.Padded axis) (keep kept : Bool) :
    ∀ b ∈ (t.sized axis keep kept).preorder, b.Weighed axis := by
  refine forall_mem_sized (fun b kept here => ?_) (fun b children here => Box.weighed_sized here) padded keep kept
  unfold Box.releaseBreak
  split <;> exact here

theorem resized_passAxis (ready : ∀ b ∈ t.preorder, b.Ready axis) (keep : Bool) (around : Option Surround) :
    Paired (fun a sized b placed => b.arrangement.primaryAxis? = some axis → RunsResized axis a sized b placed)
      (t.sized axis keep false) (t.passAxis keep around axis) := by
  let Fit (b : Box) : Prop := b.Measured axis ∧ b.flags.fixed.get axis = decide (0 < b.fixedSize.get axis)
  have marked : ∀ b value, Fit b → Fit (b.withBreak value) := fun _ _ fit => fit
  have fit : ∀ b ∈ (t.sized axis keep false).preorder, Fit b := fun b member =>
    ⟨measured_sized ready keep false b member,
      ((sized_kept t axis keep false).all ready (fun same here => here.of_kept same) b member).fixed⟩
  have rooted := (Box.SameKept.writing axis).rooted around (t.value.start axis) (Box.SameKept.refl (t.sized axis keep false).value)
  refine (paired_arrange rooted.inputs.container.symm).imp fit fun {a sized b placed} below arranged stacked => ?_
  refine ⟨arranged,Box.placeChildren_runsOn stacked sized,fun run built last => ?_⟩
  have members := Box.forall_mem_runsOn marked below run built
  exact Run.resizes_place _ _ last (fun b inside => (members b inside).1) fun b inside => (members b inside).2

end Tree
end BoxLayout
