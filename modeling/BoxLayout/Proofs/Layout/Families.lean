import BoxLayout.Proofs.Layout.Columnless
import BoxLayout.Proofs.Layout.Runs

namespace BoxLayout

-- What one step of a pass does to a container and its children, wherever they are.

namespace Tree
variable {α β : Type}

inductive Paired (P : α → List α → β → List β → Prop) : Tree α → Tree β → Prop where
  | node {a : α} {b : β} {ts : List (Tree α)} {us : List (Tree β)} :
      P a (ts.map value) b (us.map value) → List.Forall₂ (Paired P) ts us → Paired P (.node a ts) (.node b us)

end Tree

namespace Box

-- A container as it was sized: content found from the children, and their marks dropped
-- unless it is a wrapping column in a pass that keeps them.
structure Fitted (axis : Axis) (keep : Bool) (b : Box) (children : List Box) : Prop where
  content : ¬0 < b.fixedSize.get axis → b.contentSize.get axis = b.contentNeed axis children + b.padding.total axis
  released : axis = .x → (keep = true → b.arrangement ≠ .columnWrap) → ∀ child ∈ children, child.flags.isBreak = false

structure Arranged (axis : Axis) (a : Box) (sized : List Box) (b : Box) (placed : List Box) : Prop where
  container : b.container = a.container
  children : placed = (b.settled axis sized).map
    (·.clippedTo axis (if b.container.constrainSize then some (b.contentSpan axis) else none))

theorem content_sized {b : Box} {axis : Axis} {children : List Box} (flexible : ¬0 < (b.sized axis children).fixedSize.get axis) :
    (b.sized axis children).contentSize.get axis =
      (b.sized axis children).contentNeed axis children + (b.sized axis children).padding.total axis := by
  have kept : SameKept b (b.sized axis children) := (SameKept.writing axis).sizedBox (.refl b)
  rw [← kept.inputs.fixedSize] at flexible
  have need : (b.sized axis children).contentNeed axis children = b.contentNeed axis children := by
    unfold contentNeed arrangement
    rw [kept.inputs.container]
  rw [need,← kept.inputs.padding,sized_content flexible,content_withExtent,content_withContent,if_pos rfl]

theorem isBreak_of_flags {a b : Box} (same : a.bothFlags = b.bothFlags) : a.flags.isBreak = b.flags.isBreak :=
  congrArg LayoutFlags.isBreak (congrArg Prod.snd same)

namespace Arranged
variable {a b : Box} {axis : Axis} {sized placed : List Box} (arranged : Arranged axis a sized b placed)
include arranged

theorem flags : placed.map bothFlags = (b.placeChildren axis sized).map bothFlags := by
  rw [arranged.children,map_flags fun _ => flags_clippedTo _,settled,map_flags]
  intro child
  split
  · exact flags_floatedIn _
  · rfl

theorem flags_uncut (uncut : b.Uncut axis) : placed.map bothFlags = sized.map bothFlags :=
  arranged.flags.trans (flags_placeChildren uncut sized)

theorem flags_wrapped (stacked : b.arrangement.primaryAxis? = some axis) (wraps : b.arrangement.wraps = true) :
    placed.map bothFlags = (markRuns axis (b.contentSpan axis).space [] (sized.map (·.withBreak false))).map bothFlags := by
  rw [arranged.flags,placeChildren]
  simp only [stacked,wraps,if_true]
  exact flags_stackChildren_wrapped _ _ _ _ _

end Arranged

theorem SameOn.contentSpan {a b : Box} {axis : Axis} (same : SameOn axis a b) (padding : a.padding = b.padding) :
    a.contentSpan axis = b.contentSpan axis := by
  have span : ∀ c : Box, c.contentSpan axis =
      ⟨c.start axis + c.padding.start axis,(c.extent axis - c.padding.total axis).positivePart⟩ := by
    intro c
    cases axis <;> rfl
  rw [span,span,same.start,same.extent,padding]

theorem arrangement_sized (b : Box) (axis : Axis) (kept : Bool) (children : List Box) :
    ((b.releaseBreak axis kept).sized axis children).arrangement = b.arrangement := by
  have writing := SameKept.writing axis
  have same : SameKept b ((b.releaseBreak axis kept).sized axis children) :=
    writing.sizedBox (writing.releaseBreak (.refl b) kept)
  exact congrArg ContainerFlags.arrangement same.inputs.container.symm

end Box

namespace Tree
variable {axis : Axis} {clip : Option Span} {b : Box}

theorem isBreak_sized (t : Tree Box) (keep : Bool) : (t.sized .x keep false).value.flags.isBreak = false := by
  cases t
  rw [sized_node]
  exact congrArg (fun flags : ContainerFlags × LayoutFlags => flags.2.isBreak) Box.flags_sized

theorem each_sized (t : Tree Box) (axis : Axis) (keep kept : Bool) : (t.sized axis keep kept).Each (Box.Fitted axis keep) := by
  induction t generalizing kept with
  | node value children ih =>
      rw [sized_node]
      refine .node ⟨Box.content_sized,?_⟩ ?_
      · rintro rfl dropped child member
        rw [Box.arrangement_sized] at dropped
        have none : (keep && decide (value.arrangement = .columnWrap)) = false := by
          cases keep with
          | false => rfl
          | true => exact decide_eq_false (dropped rfl)
        rw [none,List.map_map] at member
        obtain ⟨tree,_,rfl⟩ := List.mem_map.mp member
        exact isBreak_sized tree keep
      · intro tree member
        obtain ⟨before,listed,rfl⟩ := List.mem_map.mp member
        exact ih before listed _

theorem values_arrangeAll {R : Tree Box → Box → Prop} (clip : Option Span) {trees : List (Tree Box)} {boxes : List Box}
    (related : List.Forall₂ R trees boxes) :
    (arrangeAll axis clip boxes trees).map value = boxes.map (·.clippedTo axis clip) := by
  induction related with
  | nil => rfl
  | cons _ _ ih => rw [arrangeAll,List.map_cons,value_arrange,ih,List.map_cons]

theorem paired_arrange {t : Tree Box} (same : b.container = t.value.container) :
    Paired (Box.Arranged axis) t (t.arrange axis clip b) := by
  induction t generalizing b clip with
  | node value children ih =>
      have container : (b.clippedTo axis clip).container = value.container :=
        (congrArg Box.container (b.unplaced_clippedTo axis clip) :).trans same
      have settled := ((Box.SameKept.writing axis).placing _).settled (a := b.clippedTo axis clip) rfl
        (List.forall₂_same.mpr fun child (_ : child ∈ children.map Tree.value) => Box.SameKept.refl child)
      rw [List.forall₂_map_left_iff] at settled
      rw [arrange_node]
      dsimp only
      refine .node ⟨container,values_arrangeAll _ settled⟩ ?_
      generalize (if (b.clippedTo axis clip).container.constrainSize then some ((b.clippedTo axis clip).contentSpan axis) else none) = inner
      generalize (b.clippedTo axis clip).settled axis (children.map Tree.value) = boxes at settled
      clear container same
      induction settled with
      | nil => exact .nil
      | cons one _ more =>
          exact .cons (ih _ List.mem_cons_self one.inputs.container.symm) (more fun tree member => ih tree (List.mem_cons_of_mem _ member))

end Tree
end BoxLayout
