import BoxLayout.Proofs.Layout.RunEnds

namespace BoxLayout
open Single

-- The children in flow of a container, from the runs they were placed on to where they are
-- in the end.

variable {axis : Axis}

namespace Run

theorem length_standing_place (run : Run) (axis : Axis) (span : Span) (alignment : Alignment) (wrap last : Bool) :
    ((run.place axis span alignment wrap last).filter (·.flags.inFlow)).length = run.standing.length := by
  rw [standing_place]
  exact (Shares.placeFrom_related _ axis _ _ _ run.standing).length_eq.symm

theorem placeAll_parts {α : Type} {R : α → Box → Prop} {span : Span} {alignment : Alignment} {wrap : Bool} {parts : List (List α)}
    {runs : List Run} (lengths : List.Forall₂ (fun part run => part.length = run.standing.length) parts runs)
    (related : List.Forall₂ R parts.flatten ((placeAll axis span alignment wrap runs).filter (·.flags.inFlow))) :
    List.Forall₂ (fun part run => ∃ last, List.Forall₂ R part ((run.place axis span alignment wrap last).filter (·.flags.inFlow))) parts runs := by
  induction lengths with
  | nil => exact .nil
  | @cons part run parts runs same more ih =>
      have apart : ∀ last ys, List.Forall₂ R (part ++ parts.flatten) ((run.place axis span alignment wrap last).filter (·.flags.inFlow) ++ ys) →
          List.Forall₂ R part ((run.place axis span alignment wrap last).filter (·.flags.inFlow)) ∧ List.Forall₂ R parts.flatten ys := by
        intro last ys whole
        have here := List.forall₂_take_append _ _ _ whole
        have later := List.forall₂_drop_append _ _ _ whole
        have length := (length_standing_place run axis span alignment wrap last).trans same.symm
        rw [length,List.take_left] at here
        rw [length,List.drop_left] at later
        exact ⟨here,later⟩
      rw [List.flatten_cons] at related
      cases more with
      | nil =>
          rw [placeAll,← List.append_nil (List.filter ..)] at related
          exact .cons ⟨true,(apart true [] related).1⟩ .nil
      | cons same' more =>
          rw [placeAll,List.filter_append] at related
          · obtain ⟨here,later⟩ := apart false _ related
            exact .cons ⟨false,here⟩ (ih later)
          · exact List.cons_ne_nil _ _

end Run

namespace Box
variable {a b : Box} {sized placed : List Box}

theorem filter_inFlow_map {change : Box → Box} (same : ∀ b, (change b).bothFlags = b.bothFlags) (xs : List Box) :
    (xs.map change).filter (·.flags.inFlow) = (xs.filter (·.flags.inFlow)).map change := by
  rw [List.filter_map]
  refine congrArg _ (List.filter_congr fun b _ => ?_)
  exact congrArg (fun flags : ContainerFlags × LayoutFlags => flags.2.inFlow) (same b)

theorem filter_inFlow_ite {moves : Box → Bool} {change : Box → Box} (same : ∀ b, (change b).bothFlags = b.bothFlags)
    (out : ∀ b, b.flags.inFlow = true → moves b = false) (xs : List Box) :
    (xs.map fun b => if moves b then change b else b).filter (·.flags.inFlow) = xs.filter (·.flags.inFlow) := by
  rw [filter_inFlow_map fun b => ?_]
  · refine (List.map_congr_left fun b member => ?_).trans (List.map_id _)
    rw [out b (by simpa using (List.mem_filter.mp member).2)]
    rfl
  · split
    · exact same b
    · rfl

theorem not_floating_of_inFlow (flows : b.flags.inFlow = true) : b.flags.floating = false ∧ b.flags.stacked = false := by
  simpa [LayoutFlags.inFlow] using flows

def clip (b : Box) (axis : Axis) : Option Span := if b.container.constrainSize then some (b.contentSpan axis) else none

-- The children in flow are as their runs placed them, but for the clip.
theorem Arranged.flow (arranged : Arranged axis a sized b placed) (stacked : b.arrangement.primaryAxis? = some axis) :
    placed.filter (·.flags.inFlow) = ((Run.placeAll axis (b.contentSpan axis) b.container.alignment b.arrangement.wraps
      (b.runsOn axis sized)).filter (·.flags.inFlow)).map (·.clippedTo axis (b.clip axis)) := by
  rw [arranged.children,filter_inFlow_map fun _ => flags_clippedTo _,settled,filter_inFlow_ite (fun _ => flags_floatedIn _) fun _ flows =>
    (not_floating_of_inFlow flows).1,placeChildren_runsOn stacked,filter_inFlow_ite (fun _ => flags_squeezedIn _ _) fun _ flows => ?_]
  · rfl
  · rw [(not_floating_of_inFlow flows).2]
    rfl

structure Stands (axis : Axis) (clip : Option Span) (b p : Box) : Prop where
  start : b.start axis = p.start axis
  extent : b.extent axis = (p.clippedTo axis clip).extent axis
  margins : b.margins = p.margins

theorem Stands.outerEnd_eq {p : Box} (stands : b.Stands axis none p) : b.outerEnd axis = p.outerEnd axis := by
  unfold outerEnd
  rw [stands.start,stands.extent,stands.margins]
  rfl

theorem Stands.outerEnd_le {p : Box} {clip : Option Span} (stands : b.Stands axis clip p) : b.outerEnd axis ≤ p.outerEnd axis := by
  have shorter : ((p.clippedTo axis clip).extent axis).value ≤ (p.extent axis).value := by
    unfold clippedTo
    cases clip with
    | none => exact le_rfl
    | some span =>
        dsimp only
        split
        · rename_i less
          obtain ⟨number,number'⟩ := ne_nan_of_le (le_of_lt less)
          rw [extent_withExtent,if_pos rfl]
          exact ((lt_iff_value number number').mp less).le
        · exact le_rfl
  unfold outerEnd
  rw [stands.start,stands.extent,stands.margins]
  linarith

end Box
end BoxLayout
