import BoxLayout.Proofs.Forest.RunEnds
import BoxLayout.Proofs.Layout.Apart

namespace BoxLayout.Forest

-- No child of a run reaches into the next one.

variable {f : Forest} {key : Key} {axis : Axis}

theorem isChain_related {α β : Type} {R : α → β → Prop} {S : β → β → Prop} {xs : List α} {ys : List β}
    (related : List.Forall₂ R xs ys) (chain : ys.IsChain S) : xs.IsChain fun x x' => ∃ y y', R x y ∧ R x' y' ∧ S y y' := by
  induction related with
  | nil => exact .nil
  | cons one more ih =>
      cases more with
      | nil => exact .singleton _
      | cons two more =>
          obtain ⟨here,later⟩ := List.isChain_cons_cons.mp chain
          exact .cons_cons ⟨_,_,one,two,here⟩ (ih later)

-- Wherever margins are not negative: after an update, of two children of a run one after the
-- other the second never starts before the first ends, however they were squeezed, stretched,
-- justified or clipped, and whatever the other inputs are.
theorem runs_apart (path : f.Reachable) (spaced : ∀ key, f.Attached key → ∀ side ∈ (f.box key).margins.sides, 0 ≤ side)
    (attached : f.Attached key) (stacked : (f.box key).arrangement.primaryAxis? = some axis) {part : List Key}
    (member : part ∈ f.update.runsOf key) :
    part.IsChain fun a b => ¬(f.update.box b).start axis < (f.update.box a).rect.finish axis := by
  have linked := path.linked
  have margins : ∀ child ∈ part, 0 ≤ (f.update.box child).margins.start axis ∧ 0 ≤ (f.update.box child).margins.finish axis := by
    intro child inside
    have below : f.Attached child := .child (linked.mem_children.mp (mem_runsOf linked attached member child inside)) attached
    rw [← (update_kept linked below).inputs.margins]
    exact ⟨spaced child below _ (Spacing.start_mem_sides _ axis),spaced child below _ (Spacing.finish_mem_sides _ axis)⟩
  obtain ⟨run,last,placed⟩ := onRun_update linked attached stacked member
  have stands := placed.stands
  rw [Run.standing_place] at stands
  refine (isChain_related stands (Run.Shares.isChain_placeFrom _ axis _ _ _ run.flows_standing)).imp_of_mem_imp ?_
  rintro a b inA inB ⟨p,q,first,second,follows⟩
  have after := (margins a inA).2
  have before := (margins b inB).1
  rw [first.margins] at after
  rw [second.margins] at before
  have ends : (f.update.box a).rect.finish axis = p.start axis + (p.clippedTo axis ((f.update.box key).clip axis)).extent axis := by
    rw [← first.start,← first.extent]
    rfl
  rw [ends,second.start]
  exact follows.apart Run.isNegative_gap after before _

def spilling : Forest := after
  [.setContainerFlags .root (.ofWord 33),.setSize .root ⟨100,10⟩,.createChild .root,.setSize ⟨1⟩ ⟨60,10⟩,.setMargins ⟨1⟩ (.uniform 5),
    .createChild .root,.setSize ⟨2⟩ ⟨80,10⟩,.setMargins ⟨2⟩ (.uniform 5),.createChild .root,.setSize ⟨3⟩ ⟨10,10⟩]

theorem runs_apart_spilling : spilling.Reachable ∧ (∀ key, spilling.Attached key → ∀ side ∈ (spilling.box key).margins.sides, 0 ≤ side) ∧
    spilling.Attached .root ∧ (spilling.box .root).arrangement.primaryAxis? = some .x ∧ [⟨1⟩,⟨2⟩,⟨3⟩] ∈ spilling.update.runsOf .root ∧
    [⟨1⟩,⟨2⟩,⟨3⟩].IsChain (fun a b => ¬(spilling.update.box b).start .x < (spilling.update.box a).rect.finish .x) ∧
    [⟨1⟩,⟨2⟩,⟨3⟩].map (fun key => ((spilling.update.box key).start .x,(spilling.update.box key).rect.finish .x)) =
      [(5,65),(75,100),(160,160)] := by
  have path : spilling.Reachable := reachable_after _
  have checked : ∀ key ∈ spilling.keys, ∀ side ∈ (spilling.box key).margins.sides, 0 ≤ side := by decide +kernel
  have spaced : ∀ key, spilling.Attached key → ∀ side ∈ (spilling.box key).margins.sides, 0 ≤ side := fun key attached =>
    checked key (mem_keys.mpr (path.linked.contains_attached attached))
  have stacked : (spilling.box .root).arrangement.primaryAxis? = some .x := by decide +kernel
  have member : [⟨1⟩,⟨2⟩,⟨3⟩] ∈ spilling.update.runsOf .root := by decide +kernel
  exact ⟨path,spaced,.self,stacked,member,runs_apart path spaced .self stacked member,by decide +kernel⟩

end BoxLayout.Forest
