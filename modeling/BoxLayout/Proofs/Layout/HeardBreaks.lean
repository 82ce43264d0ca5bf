import BoxLayout.Proofs.Layout.Alike
import BoxLayout.Proofs.Layout.Passes
import BoxLayout.Proofs.Layout.Split

namespace BoxLayout

-- Which forced breaks a layout hears: those of children in flow behind one that does not
-- float. Boxes that are alike and have these in common are cut into runs alike, so their
-- trees are laid out alike.

theorem splitBefore_congr {α : Type} {p q : α → Bool} {xs : List α} (same : ∀ x ∈ xs, p x = q x) :
    splitBefore p xs = splitBefore q xs := by
  have each : List.Forall₂ (fun x y => x = y ∧ p x = q y) xs xs := List.forall₂_same.mpr fun x member => ⟨rfl,same x member⟩
  have parts := (splitBefore_related each And.right).imp fun _ _ one => one.imp fun _ _ both => both.1
  simpa only [List.forall₂_eq_eq_eq] using parts

theorem splitBefore_behind {α β : Type} {R : α → β → Prop} {p : α → Bool} {q : β → Bool} {x : α} {y : β} {xs : List α}
    {ys : List β} (first : R x y) (rest : List.Forall₂ (fun x y => R x y ∧ p x = q y) xs ys) :
    List.Forall₂ (List.Forall₂ R) (splitBefore p (x :: xs)) (splitBefore q (y :: ys)) := by
  cases rest with
  | nil => exact .cons (.cons first .nil) .nil
  | @cons next next' xs ys one more =>
      have both : List.Forall₂ (fun x y => R x y ∧ p x = q y) (next :: xs) (next' :: ys) := .cons one more
      have parts := (splitBefore_related both And.right).imp fun _ _ run => run.imp fun _ _ both => both.1
      rw [splitBefore_cons,splitBefore_cons,one.2]
      split
      · exact .cons (.cons first .nil) parts
      · generalize splitBefore p (next :: xs) = runs at parts ⊢
        generalize splitBefore q (next' :: ys) = runs' at parts ⊢
        cases parts with
        | nil => exact .nil
        | cons run runs => exact .cons (.cons first run) runs

namespace Box
variable {a b : Box} {axis : Axis} {begun : Bool} {xs ys : List Box}

-- Child by child; whether one that does not float has come before is told at the start.
def heard : Bool → List Box → List (Option Bool)
  | _,[] => []
  | begun,b :: rest => (if begun && b.flags.inFlow then some b.flags.forceBreak else none) ::
      heard (begun || !b.flags.floating) rest

def SameFlags (a b : Box) : Prop := { a.flags with isBreak := false } = { b.flags with isBreak := false }

theorem heard_congr (same : List.Forall₂ SameFlags xs ys) : heard begun xs = heard begun ys := by
  induction same generalizing begun with
  | nil => rfl
  | @cons a b _ _ one _ ih =>
      have inFlow : a.flags.inFlow = b.flags.inFlow := (congrArg LayoutFlags.inFlow one :)
      have forced : a.flags.forceBreak = b.flags.forceBreak := (congrArg LayoutFlags.forceBreak one :)
      have floating : a.flags.floating = b.flags.floating := (congrArg LayoutFlags.floating one :)
      rw [heard,heard,inFlow,forced,floating,ih]

theorem forced_eq (alike : Alike a b) (here : (if begun && a.flags.inFlow then some a.flags.forceBreak else none) =
    if begun && b.flags.inFlow then some b.flags.forceBreak else none) (started : begun = true) (flows : a.flags.inFlow = true) :
    a.flags.forceBreak = b.flags.forceBreak := by
  rw [← alike.inFlow,started,flows] at here
  exact Option.some.inj here

-- Leaving out children of one kind leaves those heard less.
theorem heard_filter {kept : Box → Bool} (same : ∀ {a b}, Alike a b → kept a = kept b) (related : List.Forall₂ Alike xs ys)
    (agreed : heard begun xs = heard begun ys) {begun' : Bool} (later : begun' = true → begun = true) :
    heard begun' (xs.filter kept) = heard begun' (ys.filter kept) := by
  induction related generalizing begun begun' with
  | nil => rfl
  | @cons a b xs ys one _ ih =>
      obtain ⟨here,rest⟩ := List.cons.inj agreed
      rw [← one.floating] at rest
      have after : ∀ {now : Bool}, (now = true → begun = true ∨ a.flags.floating = false) →
          heard now (xs.filter kept) = heard now (ys.filter kept) := by
        intro now implied
        refine ih rest fun start => ?_
        rcases implied start with held | grounded
        · rw [held,Bool.true_or]
        · rw [grounded,Bool.not_false,Bool.or_true]
      by_cases keeps : kept a = true
      · rw [List.filter_cons_of_pos keeps,List.filter_cons_of_pos (same one ▸ keeps),heard,heard,← one.floating,← one.inFlow]
        congr 1
        · by_cases counts : (begun' && a.flags.inFlow) = true
          · obtain ⟨start,flows⟩ := Bool.and_eq_true_iff.mp counts
            rw [if_pos counts,if_pos counts,forced_eq one here (later start) flows]
          · rw [if_neg counts,if_neg counts]
        · refine after fun start => ?_
          rcases Bool.or_eq_true_iff.mp start with held | grounded
          · exact .inl (later held)
          · exact .inr (by simpa using grounded)
      · rw [List.filter_cons_of_neg keeps,List.filter_cons_of_neg (same one ▸ keeps)]
        exact after fun start => .inl (later start)

theorem opensRun_alike (related : List.Forall₂ Alike xs ys) (agreed : heard true xs = heard true ys) :
    List.Forall₂ (fun a b => Alike a b ∧ opensRun a = opensRun b) xs ys := by
  induction related with
  | nil => exact .nil
  | @cons a b xs ys one _ ih =>
      obtain ⟨here,rest⟩ := List.cons.inj agreed
      refine .cons ⟨one,?_⟩ (ih rest)
      rw [opensRun,opensRun,LayoutFlags.startsRun,LayoutFlags.startsRun,← one.inFlow,← one.isBreak]
      by_cases flows : a.flags.inFlow = true
      · rw [forced_eq one here rfl flows]
      · rw [Bool.eq_false_iff.mpr flows,Bool.false_and,Bool.false_and]

theorem splitBefore_alike (related : List.Forall₂ Alike xs ys) (agreed : heard false xs = heard false ys)
    (grounded : ∀ b ∈ xs, b.flags.floating = false) :
    List.Forall₂ (List.Forall₂ Alike) (splitBefore opensRun xs) (splitBefore opensRun ys) := by
  cases related with
  | nil => exact .nil
  | cons one more =>
      have rest := (List.cons.inj agreed).2
      rw [← one.floating,grounded _ List.mem_cons_self] at rest
      exact splitBefore_behind one (opensRun_alike more rest)

theorem wrappedStackedNeed_alike (related : List.Forall₂ Alike xs ys) (agreed : heard false xs = heard false ys) :
    wrappedStackedNeed axis xs = wrappedStackedNeed axis ys := by
  have flow := filter_related related Alike.inFlow
  have grounded : ∀ b ∈ xs.filter (·.flags.inFlow), b.flags.floating = false := by
    intro b member
    have flows := (List.mem_filter.mp member).2
    simp only [LayoutFlags.inFlow,Bool.and_eq_true,Bool.not_eq_true'] at flows
    exact flows.1
  have opens : ∀ zs : List Box, splitBefore (·.flags.startsRun) (zs.filter (·.flags.inFlow)) =
      splitBefore opensRun (zs.filter (·.flags.inFlow)) := by
    intro zs
    refine splitBefore_congr fun b member => ?_
    rw [opensRun,(List.mem_filter.mp member).2,Bool.true_and]
  have runs := splitBefore_alike flow (heard_filter Alike.inFlow related agreed id) grounded
  have lengths := map_eq_of_related runs fun run => same_of_alike run
    (fun xs => total (xs.map (·.outerExtent axis))) fun xs => by rw [List.map_map]; rfl
  have baseline := same_of_alike related (Box.baseline axis) fun xs => by
    simp only [Box.baseline,List.filter_map,List.map_map]
    rfl
  simp only [wrappedStackedNeed,opens,lengths,baseline]

theorem wrappedOverlaidNeed_alike (related : List.Forall₂ Alike xs ys) (agreed : heard false xs = heard false ys) :
    wrappedOverlaidNeed axis xs = wrappedOverlaidNeed axis ys := by
  have floats : ∀ {a b}, Alike a b → (!a.flags.floating) = !b.flags.floating := fun one => by rw [one.floating]
  have standing := filter_related related floats
  have grounded : ∀ b ∈ xs.filter fun b => !b.flags.floating, b.flags.floating = false := by
    intro b member
    simpa using (List.mem_filter.mp member).2
  have runs := splitBefore_alike standing (heard_filter floats related agreed id) grounded
  have widths := map_eq_of_related runs fun run => same_of_alike run
    (fun xs => largest (xs.map (·.outerExtent axis))) fun xs => by rw [List.map_map]; rfl
  have floating := same_of_alike related (fun xs => largest ((xs.filter (·.flags.floating)).map (·.reach axis))) fun xs => by
    rw [List.filter_map,List.map_map]
    rfl
  simp only [wrappedOverlaidNeed,widths,floating]

theorem contentNeed_alike (here : Alike a b) (related : List.Forall₂ Alike xs ys) (agreed : heard false xs = heard false ys) :
    a.contentNeed axis xs = b.contentNeed axis ys := by
  have stacked := same_of_alike related (stackedNeed axis) fun xs => by
    simp only [stackedNeed,Box.baseline,List.filter_map,List.map_map]
    rfl
  have overlaid := same_of_alike related (overlaidNeed axis) fun xs => by
    rw [overlaidNeed,List.map_map]
    rfl
  simp only [contentNeed,here.arrangement,stacked,overlaid,wrappedStackedNeed_alike related agreed,
    wrappedOverlaidNeed_alike related agreed]

-- A floating child in front stays where it is and opens no run; at most it makes zero
-- room of its own.
theorem squeezeRuns_floating (axis : Axis) (floats : b.flags.floating = true) (constrained : Bool) (offset : Single) (xs : List Box) :
    ∃ offset', offset.Alike offset' ∧ squeezeRuns axis constrained offset (splitBefore opensRun (b :: xs)) =
      b :: squeezeRuns axis constrained offset' (splitBefore opensRun xs) := by
  have still : ∀ span, squeezeChildren axis span constrained [b] = [b] := by
    intro span
    rw [squeezeChildren,List.map_singleton,if_pos floats]
  have need : ∀ run, runNeed axis (b :: run) = runNeed axis run := by
    intro run
    rw [runNeed,List.filter_cons_of_neg (by rw [floats]; exact Bool.false_ne_true)]
    rfl
  cases xs with
  | nil => exact ⟨offset,.refl _,congrArg (· ++ []) (still _)⟩
  | cons next rest =>
      rw [splitBefore_cons]
      split
      · refine ⟨offset + 0,Single.alike_add_zero _,?_⟩
        rw [squeezeRuns,still,need]
        rfl
      · obtain ⟨run,runs,found⟩ := splitBefore_head opensRun next rest
        refine ⟨offset,.refl _,?_⟩
        rw [found,List.modifyHead_cons,squeezeRuns,squeezeRuns,need,squeezeChildren,List.map_cons,if_pos floats]
        rfl

theorem squeezeRuns_heard (related : List.Forall₂ Alike xs ys) (agreed : heard false xs = heard false ys) (constrained : Bool)
    {offset offset' : Single} (near : offset.Alike offset') :
    List.Forall₂ Alike (squeezeRuns axis constrained offset (splitBefore opensRun xs))
      (squeezeRuns axis constrained offset' (splitBefore opensRun ys)) := by
  induction related generalizing offset offset' with
  | nil => exact .nil
  | @cons a b xs ys one more ih =>
      have rest := (List.cons.inj agreed).2
      rw [← one.floating] at rest
      by_cases floats : a.flags.floating = true
      · rw [floats] at rest
        obtain ⟨moved,close,left⟩ := squeezeRuns_floating axis floats constrained offset xs
        obtain ⟨moved',close',right⟩ := squeezeRuns_floating axis (one.floating ▸ floats) constrained offset' ys
        rw [left,right]
        exact .cons one (ih rest (close.symm.trans (near.trans close')))
      · rw [Bool.eq_false_iff.mpr floats] at rest
        exact squeezeRuns_alike (splitBefore_behind one (opensRun_alike more rest)) constrained near

end Box

theorem Run.build_heard (axis : Axis) (space : Single) (wrap : Bool) {run run' : Run} {begun : Bool} {xs ys : List Box}
    (same : run.Corresponds Box.Alike run') (started : 0 < run.total → begun = true) (related : List.Forall₂ Box.Alike xs ys)
    (agreed : Box.heard begun xs = Box.heard begun ys) :
    List.Forall₂ (Run.Corresponds Box.Alike) (build axis space wrap run xs) (build axis space wrap run' ys) := by
  induction related generalizing run run' begun with
  | nil => exact .cons same .nil
  | @cons a b xs ys one _ ih =>
      obtain ⟨here,rest⟩ := List.cons.inj agreed
      rw [← one.floating] at rest
      by_cases flows : a.flags.inFlow = false
      · rw [build,build,if_pos flows,if_pos (one.inFlow ▸ flows)]
        exact ih (Transfer.pass same one) (fun some => by rw [started some,Bool.true_or]) rest
      · have flows' : a.flags.inFlow = true := Bool.eq_true_of_not_eq_false flows
        have grounded : a.flags.floating = false := by
          simp only [LayoutFlags.inFlow,Bool.and_eq_true,Bool.not_eq_true'] at flows'
          exact flows'.1
        rw [grounded,Bool.not_false,Bool.or_true] at rest
        have ends : run.Ends axis space a ↔ run'.Ends axis space b := by
          unfold Run.Ends
          rw [← same.total]
          refine and_congr_right fun some => ?_
          rw [Run.extended_alike same one,Box.forced_eq one here (started some) flows']
        have flowsToo : ¬b.flags.inFlow = false := one.inFlow ▸ flows
        rw [build,build,if_neg flows,if_neg flowsToo]
        simp only [ends]
        split
        · exact .cons same (ih (Run.accept_alike Transfer.empty_corresponds (one.withBreak true)) (fun _ => rfl) rest)
        · exact ih (Run.accept_alike same one) (fun _ => rfl) rest

namespace Box
variable {a b : Box} {axis : Axis} {xs ys : List Box} {span span' : Span}

theorem stackChildren_alike (related : List.Forall₂ Alike xs ys) (agreed : heard false xs = heard false ys)
    (near : span.Alike span') (alignment : Alignment) (wrap constrained : Bool) :
    List.Forall₂ Alike (stackChildren axis span alignment wrap constrained xs)
      (stackChildren axis span' alignment wrap constrained ys) := by
  have unmarked : ∀ zs : List Box, heard false (zs.map (·.withBreak false)) = heard false zs := by
    intro zs
    refine heard_congr ?_
    rw [List.forall₂_map_left_iff,List.forall₂_same]
    exact fun _ _ => rfl
  have released : List.Forall₂ Alike (if wrap then xs.map (·.withBreak false) else xs)
      (if wrap then ys.map (·.withBreak false) else ys) := by
    split
    · exact List.rel_map (fun _ _ one => one.withBreak false) related
    · exact related
  have asked : heard false (if wrap then xs.map (·.withBreak false) else xs) =
      heard false (if wrap then ys.map (·.withBreak false) else ys) := by
    split
    · rw [unmarked,unmarked,agreed]
    · exact agreed
  have built := Run.build_heard axis span'.space wrap Transfer.empty_corresponds (fun some => absurd some (Nat.lt_irrefl 0))
    released asked
  unfold stackChildren
  simp only [near.space]
  refine List.rel_map ?_ (Run.placeAll_alike built near alignment wrap)
  intro a b one
  simp only [one.same (·.flags.stacked),one.floating]
  split
  · exact one.squeezedIn near constrained
  · exact one

theorem placeChildren_alike (here : Alike a b) (related : List.Forall₂ Alike xs ys) (agreed : heard false xs = heard false ys) :
    List.Forall₂ Alike (a.placeChildren axis xs) (b.placeChildren axis ys) := by
  have near := here.contentSpan axis
  simp only [placeChildren,here.arrangement,here.container]
  split
  · exact stackChildren_alike related agreed near _ _ _
  · split
    · exact squeezeRuns_heard related agreed _ near.offset
    · split
      · exact overlayChildren_alike related near
      · exact squeezeChildren_alike related near _

theorem settled_alike (here : Alike a b) (related : List.Forall₂ Alike xs ys) (agreed : heard false xs = heard false ys) :
    List.Forall₂ Alike (a.settled axis xs) (b.settled axis ys) := by
  refine List.rel_map ?_ (placeChildren_alike here related agreed)
  intro c d one
  simp only [one.floating]
  split
  · exact one.floatedIn (here.contentSpan axis)
  · exact one

end Box

namespace Tree
variable {t u : Tree Box} {axis : Axis} {keep kept : Bool} {a b : Box}

mutual
def heard : Tree Box → Tree (List (Option Bool))
  | .node _ children => .node (Box.heard false (children.map value)) (heardAll children)
def heardAll : List (Tree Box) → List (Tree (List (Option Bool)))
  | [] => []
  | tree :: rest => heard tree :: heardAll rest
end

theorem heard_node (b : Box) (children : List (Tree Box)) :
    (node b children).heard = .node (Box.heard false (children.map value)) (children.map heard) := by
  have all : ∀ trees : List (Tree Box), heardAll trees = trees.map heard := by
    intro trees
    induction trees with
    | nil => rfl
    | cons tree rest ih => rw [heardAll,ih,List.map_cons]
  rw [heard,all]

theorem heard_of_flags (related : Related Box.SameFlags t u) : t.heard = u.heard := by
  induction t generalizing u with
  | node value children ih =>
      cases related with
      | node _ below =>
          have each := ((List.forall₂_and_left _ _).mpr ⟨ih,below⟩).imp fun _ _ both => both.1 both.2
          rw [heard_node,heard_node,Box.heard_congr (Related.values below),map_eq_of_related each id]

theorem heard_of_kept (kept : Related Box.SameKept t u) : t.heard = u.heard :=
  heard_of_flags (kept.imp fun _ _ same => same.inputs.flags)

structure Twins (t u : Tree Box) : Prop where
  alike : Related Box.Alike t u
  heard : t.heard = u.heard

theorem Twins.below {ts us : List (Tree Box)} (twins : Twins (.node a ts) (.node b us)) : Box.Alike a b ∧
    Box.heard false (ts.map Tree.value) = Box.heard false (us.map Tree.value) ∧ List.Forall₂ Twins ts us := by
  obtain ⟨alike,agreed⟩ := twins
  rw [heard_node,heard_node] at agreed
  obtain ⟨here,deeper⟩ := Tree.node.inj agreed
  cases alike with
  | node one below =>
      refine ⟨one,here,?_⟩
      rw [← List.forall₂_eq_eq_eq,List.forall₂_map_left_iff,List.forall₂_map_right_iff] at deeper
      exact List.Forall₂.mp (fun _ _ alike heard => ⟨alike,heard⟩) below deeper

theorem Twins.values {ts us : List (Tree Box)} (twins : List.Forall₂ Twins ts us) :
    List.Forall₂ Box.Alike (ts.map Tree.value) (us.map Tree.value) :=
  Related.values (twins.imp fun _ _ one => one.alike)

theorem Twins.of_kept {t' u' : Tree Box} (twins : Twins t u) (left : Related Box.SameKept t t') (right : Related Box.SameKept u u')
    (alike : Related Box.Alike t' u') : Twins t' u' :=
  ⟨alike,(heard_of_kept left).symm.trans (twins.heard.trans (heard_of_kept right))⟩

theorem sized_twins (twins : Twins t u) : Twins (t.sized axis keep kept) (u.sized axis keep kept) := by
  refine twins.of_kept (sized_kept t axis keep kept) (sized_kept u axis keep kept) ?_
  induction t generalizing u kept with
  | node value children ih =>
      obtain ⟨value',children'⟩ := u
      obtain ⟨here,agreed,below⟩ := twins.below
      rw [sized_node,sized_node,here.arrangement]
      generalize (keep && decide (value'.arrangement = .columnWrap)) = inner
      have sizedChildren : List.Forall₂ (Related Box.Alike) (children.map (sized axis keep inner))
          (children'.map (sized axis keep inner)) := by
        rw [List.forall₂_map_left_iff,List.forall₂_map_right_iff]
        exact ((List.forall₂_and_left _ _).mpr ⟨ih,below⟩).imp fun _ _ both => both.1 both.2
      have unread : ∀ trees : List (Tree Box), Box.heard false ((trees.map (sized axis keep inner)).map Tree.value) =
          Box.heard false (trees.map Tree.value) := by
        intro trees
        refine Box.heard_congr ?_
        rw [List.map_map,List.forall₂_map_left_iff,List.forall₂_map_right_iff,List.forall₂_same]
        exact fun tree _ => (sized_kept tree axis keep inner).value.inputs.flags.symm
      refine .node ((here.releaseBreak kept).sized ?_) sizedChildren
      exact Box.contentNeed_alike (here.releaseBreak kept) (Related.values sizedChildren)
        ((unread children).trans (agreed.trans (unread children').symm))

theorem arrange_twins (twins : Twins t u) (here : Box.Alike a b) {clip clip' : Option Span} (near : Option.Rel Span.Alike clip clip') :
    Related Box.Alike (t.arrange axis clip a) (u.arrange axis clip' b) := by
  induction t generalizing u a b clip clip' with
  | node value children ih =>
      obtain ⟨value',children'⟩ := u
      obtain ⟨_,agreed,below⟩ := twins.below
      have clipped : Box.Alike (a.clippedTo axis clip) (b.clippedTo axis clip') := here.clippedTo near
      have inner : ∀ clips : Bool, Option.Rel Span.Alike (if clips then some ((a.clippedTo axis clip).contentSpan axis) else none)
          (if clips then some ((b.clippedTo axis clip').contentSpan axis) else none) := by
        rintro (_ | _)
        · exact .none
        · exact .some (clipped.contentSpan axis)
      have arranged : ∀ {boxes boxes' : List Box}, List.Forall₂ Box.Alike boxes boxes' →
          ∀ {clip clip' : Option Span}, Option.Rel Span.Alike clip clip' →
            List.Forall₂ (Related Box.Alike) (arrangeAll axis clip boxes children) (arrangeAll axis clip' boxes' children') := by
        intro boxes boxes' placed clip clip' near
        clear inner clipped here agreed twins
        induction below generalizing boxes boxes' with
        | nil => cases placed <;> exact .nil
        | cons one _ more =>
            cases placed with
            | nil => exact .nil
            | cons first rest =>
                exact .cons (ih _ List.mem_cons_self one first near)
                  (more (fun tree member => ih tree (List.mem_cons_of_mem _ member)) rest)
      rw [arrange_node,arrange_node]
      dsimp only
      rw [clipped.container]
      exact .node clipped (arranged (Box.settled_alike clipped (Twins.values below) agreed) (inner _))

theorem passAxis_twins (twins : Twins t u) : Twins (t.passAxis keep none axis) (u.passAxis keep none axis) := by
  have sized : Twins (t.sized axis keep false) (u.sized axis keep false) := sized_twins twins
  exact twins.of_kept (passAxis_kept t keep none axis) (passAxis_kept u keep none axis) (arrange_twins sized sized.alike.value .none)

theorem pass_twins (twins : Twins t u) : Twins (t.pass keep none) (u.pass keep none) :=
  (passAxis_twins (passAxis_twins twins : Twins (t.passAxis keep none .x) (u.passAxis keep none .x)) : Twins
    ((t.passAxis keep none .x).passAxis keep none .y) ((u.passAxis keep none .x).passAxis keep none .y))

theorem layOut_twins (twins : Twins t u) : Twins (t.layOut none) (u.layOut none) := by
  have first : Twins (t.pass false none) (u.pass false none) := pass_twins twins
  have broke := columnBroke_of_related (fun one : Box.Alike _ _ => ⟨one.arrangement,one.isBreak⟩) first.alike
  simp only [layOut,broke]
  split
  · exact pass_twins first
  · exact first

end Tree
end BoxLayout
