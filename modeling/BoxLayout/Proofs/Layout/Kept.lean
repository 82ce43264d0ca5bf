import BoxLayout.Layout.Update
import BoxLayout.Proofs.Tree
import BoxLayout.Proofs.Layout.Access

namespace BoxLayout

-- One layout, before and after. A relation between a box as it was and as it is now
-- holds for every child placed, and for every box laid out, once each single step
-- keeps it.

-- The steps that place the children of a container, floating ones aside; only those in
-- flow stand on runs, and only along the axis they are stacked on.
structure Seating (axis : Axis) (container : ContainerFlags) (W : Box → Box → Prop) : Prop where
  overlaid : ∀ {a b}, b.flags.floating = false → W a b → ∀ span, W a (b.overlaidIn axis span)
  squeezed : ∀ {a b}, b.flags.floating = false → W a b → ∀ span,
    W a (b.squeezedIn axis span container.constrainSize)
  onRun : container.arrangement.primaryAxis? = some axis → ∀ {a b}, b.flags.inFlow = true → W a b →
    ∀ (shares : Run.Shares) bonus start,
      W a ((b.withStart axis start).withExtent axis (shares.final axis bonus b))
  withBreak : ∀ {a b}, W a b → ∀ value, W a (b.withBreak value)

structure Placing (axis : Axis) (container : ContainerFlags) (W : Box → Box → Prop) : Prop
    extends Seating axis container W where
  floated : ∀ {a b}, W a b → ∀ span, W a (b.floatedIn axis span)

theorem related_flatten {α β : Type} {W : α → β → Prop} {xs : List α} {yss : List (List β)}
    (related : List.Forall₂ W xs yss.flatten) :
    ∃ xss : List (List α), xss.flatten = xs ∧ List.Forall₂ (List.Forall₂ W) xss yss := by
  induction yss generalizing xs with
  | nil =>
      cases related
      exact ⟨[],rfl,.nil⟩
  | cons ys rest ih =>
      rw [List.flatten_cons] at related
      obtain ⟨xss,joined,parts⟩ := ih (List.forall₂_drop_append _ _ _ related)
      refine ⟨xs.take ys.length :: xss,?_,.cons (List.forall₂_take_append _ _ _ related) parts⟩
      rw [List.flatten_cons,joined,List.take_append_drop]

namespace Seating
variable {axis : Axis} {container : ContainerFlags} {W : Box → Box → Prop} (seating : Seating axis container W)
include seating
variable {a b : Box} {xs ys : List Box} {run : Run} {runs : List Run}

theorem overlayChildren (span : Span) (related : List.Forall₂ W xs ys) :
    List.Forall₂ W xs (Box.overlayChildren axis span ys) := by
  refine List.forall₂_map_right_iff.mpr (List.Forall₂.imp ?_ related)
  intro a b one
  split
  · exact one
  · rename_i grounded
    exact seating.overlaid (eq_false_of_ne_true grounded) one span

theorem squeezeChildren (span : Span) (related : List.Forall₂ W xs ys) :
    List.Forall₂ W xs (Box.squeezeChildren axis span container.constrainSize ys) := by
  refine List.forall₂_map_right_iff.mpr (List.Forall₂.imp ?_ related)
  intro a b one
  split
  · exact one
  · rename_i grounded
    exact seating.squeezed (eq_false_of_ne_true grounded) one span

theorem squeezeRuns {xss yss : List (List Box)} (offset : Single) (related : List.Forall₂ (List.Forall₂ W) xss yss) :
    List.Forall₂ W xss.flatten (Box.squeezeRuns axis container.constrainSize offset yss) := by
  induction related generalizing offset with
  | nil => exact .nil
  | cons one _ ih => exact List.rel_append (seating.squeezeChildren _ one) (ih _)

theorem build (space : Single) (wrap : Bool) (run : Run) (zs : List Box) (before : List.Forall₂ W zs run.members)
    (related : List.Forall₂ W xs ys) : ∃ xss : List (List Box), xss.flatten = zs ++ xs ∧
      List.Forall₂ (fun xs run => List.Forall₂ W xs run.members) xss (Run.build axis space wrap run ys) := by
  induction related generalizing run zs with
  | nil => exact ⟨[zs],by simp,.cons before .nil⟩
  | @cons a b xs ys one _ ih =>
      simp only [Run.build]
      split
      · obtain ⟨xss,joined,built⟩ := ih (run.pass b) _ (List.rel_append before (.cons one .nil))
        exact ⟨xss,by simpa using joined,built⟩
      · split
        · obtain ⟨xss,joined,built⟩ := ih (Run.empty.accept axis (b.withBreak true)) [a]
            (.cons (seating.withBreak one true) .nil)
          exact ⟨zs :: xss,by simpa using joined,.cons before built⟩
        · obtain ⟨xss,joined,built⟩ := ih (run.accept axis b) _ (List.rel_append before (.cons one .nil))
          exact ⟨xss,by simpa using joined,built⟩

section Stacked
variable (stacked : container.arrangement.primaryAxis? = some axis)
include stacked

theorem placeFrom (shares : Run.Shares) (bonus cursor gap : Single) (related : List.Forall₂ W xs ys) :
    List.Forall₂ W xs (shares.placeFrom axis bonus cursor gap ys) := by
  induction related generalizing cursor gap with
  | nil => exact .nil
  | cons one _ ih =>
      simp only [Run.Shares.placeFrom]
      split
      · exact .cons one (ih _ _)
      · rename_i flows
        rw [Bool.not_eq_false] at flows
        exact .cons (seating.onRun stacked flows one shares bonus _) (ih _ _)

theorem placeAll {xss : List (List Box)} (span : Span) (alignment : Alignment) (wrap : Bool)
    (related : List.Forall₂ (fun xs run => List.Forall₂ W xs run.members) xss runs) :
    List.Forall₂ W xss.flatten (Run.placeAll axis span alignment wrap runs) := by
  induction related with
  | nil => exact .nil
  | cons one more ih =>
      cases more with
      | nil =>
          rw [List.flatten_cons,List.flatten_nil,List.append_nil]
          exact seating.placeFrom stacked _ _ _ _ one
      | cons next rest => exact List.rel_append (seating.placeFrom stacked _ _ _ _ one) ih

theorem stackChildren (span : Span) (alignment : Alignment) (wrap : Bool) (related : List.Forall₂ W xs ys) :
    List.Forall₂ W xs (Box.stackChildren axis span alignment wrap container.constrainSize ys) := by
  have released : List.Forall₂ W xs (if wrap then ys.map (·.withBreak false) else ys) := by
    split
    · exact List.forall₂_map_right_iff.mpr (related.imp fun _ _ one => seating.withBreak one false)
    · exact related
  obtain ⟨xss,joined,built⟩ := seating.build span.space wrap .empty [] .nil released
  rw [List.nil_append] at joined
  subst xs
  refine List.forall₂_map_right_iff.mpr (List.Forall₂.imp ?_ (seating.placeAll stacked span alignment wrap built))
  intro a b one
  split
  · rename_i stands
    exact seating.squeezed (by simpa using (Bool.and_eq_true_iff.mp stands).2) one span
  · exact one

end Stacked

theorem placeChildren (here : a.container = container) (related : List.Forall₂ W xs ys) :
    List.Forall₂ W xs (a.placeChildren axis ys) := by
  simp only [Box.placeChildren,Box.arrangement,here]
  split
  · rename_i stacked
    exact seating.stackChildren stacked _ _ _ related
  · split
    · have cut : List.Forall₂ W xs (splitBefore Box.opensRun ys).flatten := by rwa [flatten_splitBefore]
      obtain ⟨xss,rfl,parts⟩ := related_flatten cut
      exact seating.squeezeRuns _ parts
    · split
      · exact seating.overlayChildren _ related
      · exact seating.squeezeChildren _ related

end Seating

namespace Placing
variable {axis : Axis} {container : ContainerFlags} {W : Box → Box → Prop} (placing : Placing axis container W)
include placing
variable {a : Box} {xs ys : List Box}

theorem settled (here : a.container = container) (related : List.Forall₂ W xs ys) :
    List.Forall₂ W xs (a.settled axis ys) := by
  refine List.forall₂_map_right_iff.mpr (List.Forall₂.imp ?_ (placing.placeChildren here related))
  intro a b one
  split
  · exact placing.floated one _
  · exact one

end Placing

structure Writing (axis : Axis) (W : Box → Box → Prop) : Prop where
  withStart : ∀ {a b}, W a b → ∀ value, W a (b.withStart axis value)
  withExtent : ∀ {a b}, W a b → ∀ value, W a (b.withExtent axis value)
  withBreak : ∀ {a b}, W a b → ∀ value, W a (b.withBreak value)
  withContent : ∀ {a b}, W a b → ¬0 < b.fixedSize.get axis → ∀ value, W a (b.withContent axis value)

namespace Writing
variable {axis : Axis} {W : Box → Box → Prop} (writing : Writing axis W)
include writing
variable {a b : Box} {xs ys : List Box} {t u : Tree Box}

theorem floatedIn (one : W a b) (span : Span) : W a (b.floatedIn axis span) := by
  unfold Box.floatedIn
  split
  · exact writing.withExtent (writing.withStart one _) _
  · exact writing.withStart one _

theorem placing (container : ContainerFlags) : Placing axis container W where
  overlaid _ one span := by
    unfold Box.overlaidIn
    split
    · exact writing.withStart one _
    · exact writing.withStart one _
    · exact writing.withStart (writing.withExtent one _) _
    · exact writing.withStart one _
  squeezed _ one span := writing.withExtent (writing.withStart one _) _
  floated := writing.floatedIn
  onRun _ _ _ _ one shares bonus start := writing.withExtent (writing.withStart one _) _
  withBreak := writing.withBreak

theorem clippedTo (one : W a b) (clip : Option Span) : W a (b.clippedTo axis clip) := by
  cases clip with
  | none => exact one
  | some span =>
      unfold Box.clippedTo
      dsimp only
      split
      · exact writing.withExtent one _
      · exact one

theorem arrange (clip : Option Span) (here : W t.value b) (related : Tree.Related W t u) :
    Tree.Related W t (u.arrange axis clip b) := by
  induction t generalizing u clip b with
  | node value children ih =>
      cases related with
      | @node _ value' _ children' _ below =>
          have clipped := writing.clippedTo here clip
          have arranged : ∀ (clip : Option Span) {boxes : List Box}, List.Forall₂ W (children.map Tree.value) boxes →
              List.Forall₂ (Tree.Related W) children (Tree.arrangeAll axis clip boxes children') := by
            clear clipped here
            intro clip boxes placed
            induction below generalizing boxes with
            | nil => cases placed; exact .nil
            | cons one _ more =>
                cases placed with
                | cons first rest =>
                    exact .cons (ih _ List.mem_cons_self clip first one)
                      (more (fun tree member => ih tree (List.mem_cons_of_mem _ member)) rest)
          rw [Tree.arrange_node]
          exact .node clipped (arranged _ ((writing.placing _).settled rfl (Tree.Related.values below)))

theorem releaseBreak (one : W a b) (kept : Bool) : W a (b.releaseBreak axis kept) := by
  unfold Box.releaseBreak
  split
  · exact writing.withBreak one false
  · exact one

theorem sizedBox (one : W a b) : W a (b.sized axis xs) := by
  unfold Box.sized
  dsimp only
  split
  · exact writing.withExtent (writing.withStart one _) _
  · rename_i flexible
    exact writing.withExtent (writing.withContent (writing.withStart one _) flexible _) _

theorem sized (keep kept : Bool) (related : Tree.Related W t u) : Tree.Related W t (u.sized axis keep kept) := by
  induction t generalizing u kept with
  | node value children ih =>
      cases related with
      | node here below =>
          rw [Tree.sized_node]
          refine .node (writing.sizedBox (writing.releaseBreak here kept)) (List.forall₂_map_right_iff.mpr ?_)
          exact ((List.forall₂_and_left _ _).mpr ⟨ih,below⟩).imp fun _ _ both => both.1 _ both.2

theorem rooted (around : Option Surround) (before : Single) (one : W a b) : W a (Tree.rooted around axis before b) := by
  cases around with
  | none => exact one
  | some parent =>
      unfold Tree.rooted
      dsimp only
      split
      · exact writing.floatedIn one _
      · exact writing.withStart one _

theorem passAxis (keep : Bool) (around : Option Surround) (related : Tree.Related W t u) :
    Tree.Related W t (u.passAxis keep around axis) := by
  have sized := writing.sized keep false related
  exact writing.arrange _ (writing.rooted _ _ sized.value) sized

end Writing

theorem pass_kept {W : Box → Box → Prop} {t u : Tree Box} (writing : ∀ axis, Writing axis W) (keep : Bool)
    (around : Option Surround) (related : Tree.Related W t u) : Tree.Related W t (u.pass keep around) :=
  (writing .y).passAxis keep around ((writing .x).passAxis keep around related)

-- What no write disturbs, a layout leaves.
theorem layOut_kept {W : Box → Box → Prop} {t u : Tree Box} (writing : ∀ axis, Writing axis W)
    (around : Option Surround) (related : Tree.Related W t u) : Tree.Related W t (u.layOut around) := by
  have first := pass_kept writing false around related
  unfold Tree.layOut
  dsimp only
  split
  · exact pass_kept writing true around first
  · exact first

end BoxLayout
