import BoxLayout.Proofs.Tree
import BoxLayout.Proofs.Layout.Access
import BoxLayout.Proofs.Layout.Transfer

namespace BoxLayout

-- Runs, placed children and whole arranged trees correspond when what they are
-- made of does.

structure Run.Corresponds (R : Box → Box → Prop) (run run' : Run) : Prop where
  members : List.Forall₂ R run.members run'.members
  used : run.used = run'.used
  fillers : run.fillers = run'.fillers
  squeezed : run.squeezed = run'.squeezed
  total : run.total = run'.total

namespace Transfer
variable {axis axis' : Axis} {R : Box → Box → Prop} (transfer : Transfer axis axis' R)
include transfer
variable {a b : Box} {xs ys : List Box} {run run' : Run} {runs runs' : List Run}

theorem extended (same : run.Corresponds R run') (related : R a b) :
    run.extended axis a = run'.extended axis' b := by
  have settings := transfer.settings related
  simp only [Run.extended,same.used,settings.marginTotal,settings.fills,transfer.extent related]

theorem accept (same : run.Corresponds R run') (related : R a b) :
    (run.accept axis a).Corresponds R (run'.accept axis' b) := by
  have settings := transfer.settings related
  refine ⟨List.rel_append same.members (.cons related .nil),transfer.extended same related,?_,?_,?_⟩
  · simp only [Run.accept,settings.fills,same.fillers]
  · simp only [Run.accept,settings.fills,settings.fixed,same.squeezed]
  · simp only [Run.accept,same.total]

omit transfer in
theorem pass (same : run.Corresponds R run') (related : R a b) : (run.pass a).Corresponds R (run'.pass b) :=
  ⟨List.rel_append same.members (.cons related .nil),same.used,same.fillers,same.squeezed,same.total⟩

theorem ends_iff (same : run.Corresponds R run') (related : R a b) (space : Single) :
    run.Ends axis space a ↔ run'.Ends axis' space b := by
  simp only [Run.Ends,same.total,transfer.extended same related,(transfer.settings related).forceBreak]

omit transfer in
theorem empty_corresponds : Run.empty.Corresponds R Run.empty := ⟨.nil,rfl,rfl,rfl,rfl⟩

theorem build (space : Single) (wrap : Bool) (same : run.Corresponds R run') (related : List.Forall₂ R xs ys) :
    List.Forall₂ (Run.Corresponds R) (Run.build axis space wrap run xs) (Run.build axis' space wrap run' ys) := by
  induction related generalizing run run' with
  | nil => exact .cons same .nil
  | cons one _ ih =>
      have settings := transfer.settings one
      simp only [Run.build,settings.inFlow,transfer.ends_iff same one]
      split
      · exact ih (pass same one)
      · split
        · exact .cons same (ih (transfer.accept empty_corresponds (transfer.withBreak one true)))
        · exact ih (transfer.accept same one)

omit transfer in
theorem shares_eq (same : run.Corresponds R run') (space : Single) (alignment : Alignment) (wrap last : Bool) :
    run.shares space alignment wrap last = run'.shares space alignment wrap last := by
  simp only [Run.shares,same.used,same.fillers,same.squeezed,same.total]

theorem ideal (shares : Run.Shares) (related : R a b) : shares.ideal axis a = shares.ideal axis' b := by
  have settings := transfer.settings related
  simp only [Run.Shares.ideal,settings.fills,settings.fixed,transfer.extent related]

theorem first (shares : Run.Shares) (related : R a b) : shares.first axis a = shares.first axis' b := by
  simp only [Run.Shares.first,transfer.ideal shares related,transfer.bounded related]

theorem open_iff (shares : Run.Shares) (related : R a b) : shares.Open axis a ↔ shares.Open axis' b := by
  simp only [Run.Shares.Open,(transfer.settings related).fills,transfer.first shares related,
    transfer.ideal shares related]

theorem bonus (shares : Run.Shares) (related : List.Forall₂ R xs ys) : shares.bonus axis xs = shares.bonus axis' ys := by
  have takers : (xs.filter fun b => decide (shares.Open axis b)).length =
      (ys.filter fun b => decide (shares.Open axis' b)).length :=
    (filter_related related fun one => decide_eq_decide.mpr (transfer.open_iff shares one)).length_eq
  have freed : shares.freed axis xs = shares.freed axis' ys := by
    unfold Run.Shares.freed
    rw [map_eq_of_related related fun one => by rw [transfer.ideal shares one,transfer.first shares one]]
  simp only [Run.Shares.bonus,takers,freed]

theorem final (shares : Run.Shares) (bonus : Single) (related : R a b) :
    shares.final axis bonus a = shares.final axis' bonus b := by
  simp only [Run.Shares.final,transfer.open_iff shares related,transfer.first shares related,
    transfer.bounded related]

theorem placeFrom (shares : Run.Shares) (bonus cursor gap : Single) (related : List.Forall₂ R xs ys) :
    List.Forall₂ R (shares.placeFrom axis bonus cursor gap xs) (shares.placeFrom axis' bonus cursor gap ys) := by
  induction related generalizing cursor gap with
  | nil => exact .nil
  | cons one _ ih =>
      have settings := transfer.settings one
      simp only [Run.Shares.placeFrom,settings.inFlow]
      split
      · exact .cons one (ih _ _)
      · simp only [settings.marginStart,settings.marginFinish,transfer.final shares bonus one]
        exact .cons (transfer.withExtent (transfer.withStart one _) _) (ih _ _)

theorem place (span : Span) (alignment : Alignment) (wrap last : Bool) (same : run.Corresponds R run') :
    List.Forall₂ R (run.place axis span alignment wrap last) (run'.place axis' span alignment wrap last) := by
  have flow := filter_related same.members fun one => (transfer.settings one).inFlow
  simp only [Run.place,shares_eq same,transfer.bonus _ flow]
  exact transfer.placeFrom _ _ _ _ same.members

theorem placeAll (span : Span) (alignment : Alignment) (wrap : Bool)
    (same : List.Forall₂ (Run.Corresponds R) runs runs') :
    List.Forall₂ R (Run.placeAll axis span alignment wrap runs) (Run.placeAll axis' span alignment wrap runs') := by
  induction same with
  | nil => exact .nil
  | cons one more ih =>
      cases more with
      | nil => exact transfer.place span alignment wrap true one
      | cons next rest => exact List.rel_append (transfer.place span alignment wrap false one) ih

theorem overlayChildren (span : Span) (related : List.Forall₂ R xs ys) :
    List.Forall₂ R (Box.overlayChildren axis span xs) (Box.overlayChildren axis' span ys) := by
  refine List.rel_map ?_ related
  intro a b one
  simp only [(transfer.settings one).floating]
  split
  · exact one
  · exact transfer.overlaidIn one span

theorem squeezeChildren (span : Span) (constrained : Bool) (related : List.Forall₂ R xs ys) :
    List.Forall₂ R (Box.squeezeChildren axis span constrained xs) (Box.squeezeChildren axis' span constrained ys) := by
  refine List.rel_map ?_ related
  intro a b one
  simp only [(transfer.settings one).floating]
  split
  · exact one
  · exact transfer.squeezedIn one span constrained

theorem runNeed (related : List.Forall₂ R xs ys) : Box.runNeed axis xs = Box.runNeed axis' ys := by
  have standing := filter_related (p := fun b => !b.flags.floating) (q := fun b => !b.flags.floating) related
    fun one => by rw [(transfer.settings one).floating]
  simp only [Box.runNeed,map_eq_of_related standing transfer.outerExtent]

theorem squeezeRuns {runs runs' : List (List Box)} (constrained : Bool) (offset : Single)
    (related : List.Forall₂ (List.Forall₂ R) runs runs') :
    List.Forall₂ R (Box.squeezeRuns axis constrained offset runs) (Box.squeezeRuns axis' constrained offset runs') := by
  induction related generalizing offset with
  | nil => exact .nil
  | cons one _ ih =>
      simp only [Box.squeezeRuns,transfer.runNeed one]
      exact List.rel_append (transfer.squeezeChildren _ constrained one) (ih _)

theorem stackChildren (span : Span) (alignment : Alignment) (wrap constrained : Bool) (related : List.Forall₂ R xs ys) :
    List.Forall₂ R (Box.stackChildren axis span alignment wrap constrained xs)
      (Box.stackChildren axis' span alignment wrap constrained ys) := by
  have released : List.Forall₂ R (if wrap then xs.map (·.withBreak false) else xs)
      (if wrap then ys.map (·.withBreak false) else ys) := by
    split
    · refine List.rel_map ?_ related
      intro a b one
      exact transfer.withBreak one false
    · exact related
  have placed := transfer.placeAll span alignment wrap
    (transfer.build span.space wrap empty_corresponds released)
  refine List.rel_map ?_ placed
  intro a b one
  have settings := transfer.settings one
  simp only [settings.stacked,settings.floating]
  split
  · exact transfer.squeezedIn one span constrained
  · exact one

theorem placeChildren (here : R a b) (related : List.Forall₂ R xs ys) :
    List.Forall₂ R (a.placeChildren axis xs) (b.placeChildren axis' ys) := by
  have settings := transfer.settings here
  simp only [Box.placeChildren,settings.primary,settings.wraps,settings.free,settings.alignment,
    settings.constrainSize,transfer.contentSpan here]
  split
  · exact transfer.stackChildren _ _ _ _ related
  · split
    · exact transfer.squeezeRuns _ _ (splitBefore_related related transfer.opensRun)
    · split
      · exact transfer.overlayChildren _ related
      · exact transfer.squeezeChildren _ _ related

theorem settled (here : R a b) (related : List.Forall₂ R xs ys) : List.Forall₂ R (a.settled axis xs) (b.settled axis' ys) := by
  refine List.rel_map ?_ (transfer.placeChildren here related)
  intro c d one
  simp only [(transfer.settings one).floating,transfer.contentSpan here]
  split
  · exact transfer.floatedIn one _
  · exact one

theorem arrange {t u : Tree Box} (clip : Option Span) (here : R a b) (related : Tree.Related R t u) :
    Tree.Related R (t.arrange axis clip a) (u.arrange axis' clip b) := by
  induction t generalizing u clip a b with
  | node value children ih =>
      cases related with
      | @node _ value' _ children' _ below =>
          have clipped := transfer.clippedTo here clip
          have arranged : ∀ (clip : Option Span) {boxes boxes' : List Box}, List.Forall₂ R boxes boxes' →
              List.Forall₂ (Tree.Related R) (Tree.arrangeAll axis clip boxes children)
                (Tree.arrangeAll axis' clip boxes' children') := by
            intro clip boxes boxes' placed
            induction below generalizing boxes boxes' with
            | nil => cases placed <;> exact .nil
            | cons one _ more =>
                cases placed with
                | nil => exact .nil
                | cons first rest =>
                    exact .cons (ih _ List.mem_cons_self clip first one)
                      (more (fun tree member => ih tree (List.mem_cons_of_mem _ member)) rest)
          rw [Tree.arrange_node,Tree.arrange_node]
          dsimp only
          rw [(transfer.settings clipped).constrainSize,transfer.contentSpan clipped]
          exact .node clipped (arranged _ (transfer.settled clipped (Tree.Related.values below)))

end Transfer
end BoxLayout
