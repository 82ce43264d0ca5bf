import BoxLayout.Proofs.Forest.Markers
import BoxLayout.Proofs.Forest.Nonneg
import BoxLayout.Proofs.Forest.Runs
import BoxLayout.Proofs.Layout.PlacedRuns

namespace BoxLayout

def Box.Modest (b : Box) : Prop := b.Tame ∧
  ∀ number ∈ b.margins.sides ++ b.padding.sides ++ b.fixedSize.toList ++ b.minimumSize.toList ++ b.maximumSize.toList ++
    b.floatingPosition.toList, -1000 ≤ number ∧ number ≤ 1000

instance (b : Box) : Decidable b.Modest := inferInstanceAs (Decidable (_ ∧ _))

namespace Forest
open Single

-- The runs of a container after an update, and what the last pass of it did on each.

variable {f : Forest} {key child : Key} {axis : Axis}

-- The children in flow, cut at their marks where the container wraps.
def runsOf (f : Forest) (key : Key) : List (List Key) :=
  if (f.box key).arrangement.wraps then splitBefore (fun child => (f.box child).flags.isBreak) (f.flow (f.children key))
  else [f.flow (f.children key)]

theorem getLast?_related {α β : Type} {R : α → β → Prop} {xs : List α} {ys : List β} (related : List.Forall₂ R xs ys) :
    ∀ x ∈ xs.getLast?, ∃ y ∈ ys.getLast?, R x y := by
  induction related with
  | nil => exact fun _ none => nomatch none
  | cons one more ih =>
      cases more with
      | nil =>
          intro x found
          cases Option.mem_some_iff.mp found
          exact ⟨_,rfl,one⟩
      | cons two more =>
          rw [List.getLast?_cons_cons,List.getLast?_cons_cons]
          exact ih

theorem forall₂_through {α β γ : Type} {R : α → β → Prop} {S : γ → β → Prop} {xs : List α} {ys : List β} {zs : List γ}
    (one : List.Forall₂ R xs ys) (two : List.Forall₂ S zs ys) : List.Forall₂ (fun x z => ∃ y, R x y ∧ S z y) xs zs := by
  induction one generalizing zs with
  | nil =>
      cases two
      exact .nil
  | cons here _ ih =>
      cases two with
      | cons there more => exact .cons ⟨_,here,there⟩ (ih more)

def lastPlaced (f : Forest) (axis : Axis) : Forest := f.lastPass.1.placedOn f.lastPass.2 axis

theorem lastPlaced_kept (linked : f.Linked) (attached : f.Attached key) (axis : Axis) :
    Box.SameKept (f.box key) ((f.lastPlaced axis).box key) := by
  have same := sameLinks_passes (lastPass_mem f)
  exact (passes_kept linked (lastPass_mem f) attached).trans
    (placedOn_kept (same.linked linked) _ axis (same.within_iff.mpr attached))

theorem lastPlaced_sameOn (linked : f.Linked) (attached : f.Attached key) (axis : Axis) :
    Box.SameOn axis ((f.lastPlaced axis).box key) (f.update.box key) := by
  have same := sameLinks_passes (lastPass_mem f)
  rw [update_lastPass linked]
  cases axis with
  | x => exact sameOn_second (same.linked linked) _ (same.within_iff.mpr attached)
  | y => exact .refl _

theorem update_kept (linked : f.Linked) (attached : f.Attached key) : Box.SameKept (f.box key) (f.update.box key) := by
  have kept := lastPlaced_kept linked attached .y
  rw [update_lastPass linked]
  exact kept

-- Each container placed its children on the axis between the edges that its content has in
-- the end.
theorem arranged_lastPlaced (linked : f.Linked) (attached : f.Attached key) (axis : Axis) :
    Box.Arranged axis ((f.lastSized axis).box key) ((f.children key).map (f.lastSized axis).box)
      ((f.lastPlaced axis).box key) ((f.children key).map (f.lastPlaced axis).box) := by
  have same := sameLinks_passes (lastPass_mem f)
  rw [← same.children_eq]
  exact arranged_placedOn (same.linked linked) _ axis (same.within_iff.mpr attached)

theorem contentSpan_lastPlaced (linked : f.Linked) (attached : f.Attached key) (axis : Axis) :
    ((f.lastPlaced axis).box key).contentSpan axis = (f.update.box key).contentSpan axis :=
  (lastPlaced_sameOn linked attached axis).contentSpan
    ((lastPlaced_kept linked attached axis).inputs.padding.symm.trans (update_kept linked attached).inputs.padding)

theorem clip_lastPlaced (linked : f.Linked) (attached : f.Attached key) (axis : Axis) :
    ((f.lastPlaced axis).box key).clip axis = (f.update.box key).clip axis := by
  unfold Box.clip
  rw [contentSpan_lastPlaced linked attached axis,← (lastPlaced_kept linked attached axis).inputs.container,
    ← (update_kept linked attached).inputs.container]

theorem inFlow_update (linked : f.Linked) (attached : f.Attached key) : (f.update.box key).flags.inFlow = (f.box key).flags.inFlow :=
  ((update_kept linked attached).inputs.matching .x).inFlow.symm

theorem flow_update (linked : f.Linked) (attached : f.Attached key) : f.update.flow (f.children key) = f.flow (f.children key) :=
  List.filter_congr fun _ member => inFlow_update linked (.child (linked.mem_children.mp member) attached)

structure OnRun (f : Forest) (key : Key) (axis : Axis) (part : List Key) (run : Run) (last : Bool) : Prop where
  tallied : run.Tallied axis
  sized : List.Forall₂ (fun child b => ∃ mark, b = ((f.lastSized axis).box child).withBreak mark) part run.standing
  stands : List.Forall₂ (fun child p => (f.update.box child).Stands axis ((f.update.box key).clip axis) p) part
    ((run.place axis ((f.update.box key).contentSpan axis) (f.box key).container.alignment (f.box key).arrangement.wraps last).filter
      (·.flags.inFlow))

section Attached
variable (linked : f.Linked) (attached : f.Attached key) (stacked : (f.box key).arrangement.primaryAxis? = some axis)
include linked attached stacked

theorem stands_update : List.Forall₂ (fun child p => (f.update.box child).Stands axis ((f.update.box key).clip axis) p) (f.flow (f.children key))
    ((Run.placeAll axis ((f.update.box key).contentSpan axis) (f.box key).container.alignment (f.box key).arrangement.wraps
      ((f.update.box key).runsOn axis ((f.children key).map (f.lastSized axis).box))).filter (·.flags.inFlow)) := by
  have inputs := (lastPlaced_kept linked attached axis).inputs
  have final := (update_kept linked attached).inputs
  have arrangement : ((f.lastPlaced axis).box key).arrangement = (f.box key).arrangement := congrArg ContainerFlags.arrangement inputs.container.symm
  have arrangement' : (f.update.box key).arrangement = (f.box key).arrangement := congrArg ContainerFlags.arrangement final.container.symm
  have inside : ∀ child ∈ f.children key, f.Attached child := fun child member => .child (linked.mem_children.mp member) attached
  have flow : ((f.children key).map (f.lastPlaced axis).box).filter (·.flags.inFlow) = (f.flow (f.children key)).map (f.lastPlaced axis).box := by
    rw [List.filter_map]
    refine congrArg _ (List.filter_congr fun child member => ?_)
    exact ((lastPlaced_kept linked (inside child member) axis).inputs.matching .x).inFlow.symm
  have placed := (arranged_lastPlaced linked attached axis).flow ((congrArg Arrangement.primaryAxis? arrangement).trans stacked)
  unfold Box.runsOn at placed ⊢
  rw [flow,arrangement,← inputs.container,contentSpan_lastPlaced linked attached axis,clip_lastPlaced linked attached axis] at placed
  rw [arrangement']
  have each : List.Forall₂ (· = ·) _ _ := List.forall₂_eq_eq_eq ▸ placed
  rw [List.forall₂_map_left_iff,List.forall₂_map_right_iff] at each
  refine ((List.forall₂_and_left _ _).mpr ⟨fun child member => List.mem_of_mem_filter member,each⟩).imp ?_
  rintro child p ⟨member,written⟩
  have still := lastPlaced_sameOn linked (inside child member) axis
  have margins : ((f.lastPlaced axis).box child).margins = (f.update.box child).margins :=
    (lastPlaced_kept linked (inside child member) axis).inputs.margins.symm.trans (update_kept linked (inside child member)).inputs.margins
  have unclipped := p.unplaced_clippedTo axis ((f.update.box key).clip axis)
  refine ⟨?_,?_,?_⟩
  · rw [← still.start,written,Box.start_clippedTo]
  · rw [← still.extent,written]
  · rw [← margins,written]
    exact (congrArg Box.margins unclipped :)

theorem onRun_unwrapped (unwrapped : ¬(f.box key).arrangement.wraps = true) : ∃ run, f.OnRun key axis (f.flow (f.children key)) run true := by
  have arrangement : (f.update.box key).arrangement = (f.box key).arrangement :=
    congrArg ContainerFlags.arrangement (update_kept linked attached).inputs.container.symm
  have stands := stands_update linked attached stacked
  obtain ⟨run,built,members⟩ := Box.build_unwrapped axis ((f.update.box key).contentSpan axis).space .empty
    ((f.children key).map (f.lastSized axis).box)
  have tallied : run.Tallied axis := Run.tallied_build (Run.tallied_empty axis) run (by rw [built]; exact List.mem_cons_self)
  have runs : (f.update.box key).runsOn axis ((f.children key).map (f.lastSized axis).box) = [run] := by
    unfold Box.runsOn
    rw [arrangement,Bool.eq_false_iff.mpr unwrapped]
    exact built
  rw [runs] at stands
  refine ⟨run,tallied,?_,stands⟩
  have flow : (f.lastSized axis).flow (f.children key) = f.flow (f.children key) := List.filter_congr fun child member =>
    ((lastSized_kept linked (.child (linked.mem_children.mp member) attached) axis).inputs.matching .x).inFlow.symm
  have standing : run.standing = ((f.lastSized axis).flow (f.children key)).map (f.lastSized axis).box := by
    rw [Run.standing,members]
    exact List.filter_map
  rw [standing,flow,List.forall₂_map_right_iff,List.forall₂_same]
  exact fun child _ => ⟨((f.lastSized axis).box child).flags.isBreak,rfl⟩

theorem onRun_wrapped (wraps : (f.box key).arrangement.wraps = true) {part : List Key}
    (member : part ∈ splitBefore (fun child => (f.update.box child).flags.isBreak) (f.flow (f.children key))) :
    ∃ run last, f.OnRun key axis part run last := by
  have arrangement : (f.update.box key).arrangement = (f.box key).arrangement :=
    congrArg ContainerFlags.arrangement (update_kept linked attached).inputs.container.symm
  have flowing : f.flow (f.children key) ≠ [] := by
    intro none
    rw [none] at member
    cases member
  have some : f.children key ≠ [] := fun none => flowing (by rw [none]; rfl)
  have looped := loopRuns_of_flags (flags_wrapped linked attached wraps stacked) some
  have stands := stands_update linked attached stacked
  have runs : (f.update.box key).runsOn axis ((f.children key).map (f.lastSized axis).box) =
      Run.build axis ((f.update.box key).contentSpan axis).space true .empty ((f.children key).map (f.lastSized axis).cleared) := by
    unfold Box.runsOn
    rw [arrangement,wraps,if_pos rfl,List.map_map]
    rfl
  have tallied : ∀ run ∈ Run.build axis ((f.update.box key).contentSpan axis).space true .empty
      ((f.children key).map (f.lastSized axis).cleared), run.Tallied axis := Run.tallied_build (Run.tallied_empty axis)
  have standing := looped.standing (by rwa [flow_update linked attached])
  rw [runs] at stands
  rw [flow_update linked attached] at standing
  generalize Run.build axis ((f.update.box key).contentSpan axis).space true .empty ((f.children key).map (f.lastSized axis).cleared) = runs at *
  rw [← flatten_splitBefore (fun child => (f.update.box child).flags.isBreak) (f.flow (f.children key))] at stands
  generalize splitBefore (fun child => (f.update.box child).flags.isBreak) (f.flow (f.children key)) = parts at *
  have each : List.Forall₂ (· = ·) _ _ := List.forall₂_eq_eq_eq ▸ standing.symm
  rw [List.forall₂_map_left_iff,List.forall₂_map_right_iff] at each
  have placed := Run.placeAll_parts (each.imp fun part run same => by rw [← same,List.length_map]) stands
  have both := List.Forall₂.mp (fun _ _ one two => And.intro one two) each placed
  have listed := (List.forall₂_and_left _ _).mpr ⟨tallied,both.flip⟩
  obtain ⟨run,_,counts,same,last,ends⟩ := Tree.related_of_mem listed member
  refine ⟨run,last,counts,?_,ends⟩
  rw [← same,List.forall₂_map_right_iff,List.forall₂_same]
  exact fun child _ => ⟨_,rfl⟩

theorem onRun_update {part : List Key} (member : part ∈ f.update.runsOf key) : ∃ run last, f.OnRun key axis part run last := by
  have arrangement : (f.update.box key).arrangement = (f.box key).arrangement :=
    congrArg ContainerFlags.arrangement (update_kept linked attached).inputs.container.symm
  unfold runsOf at member
  rw [arrangement,(sameLinks_update f).children_eq,flow_update linked attached] at member
  split at member
  · rename_i wraps
    exact onRun_wrapped linked attached stacked wraps member
  · rename_i unwrapped
    rw [List.mem_singleton.mp member]
    obtain ⟨run,whole⟩ := onRun_unwrapped linked attached stacked unwrapped
    exact ⟨run,true,whole⟩

omit stacked in
theorem mem_runsOf {part : List Key} (member : part ∈ f.update.runsOf key) : ∀ child ∈ part, child ∈ f.children key := by
  have arrangement : (f.update.box key).arrangement = (f.box key).arrangement :=
    congrArg ContainerFlags.arrangement (update_kept linked attached).inputs.container.symm
  unfold runsOf at member
  rw [arrangement,(sameLinks_update f).children_eq,flow_update linked attached] at member
  intro child inside
  refine List.mem_of_mem_filter (?_ : child ∈ f.flow (f.children key))
  split at member
  · rw [← flatten_splitBefore (fun child => (f.update.box child).flags.isBreak) (f.flow (f.children key))]
    exact List.mem_flatten.mpr ⟨part,member,inside⟩
  · rwa [← List.mem_singleton.mp member]

end Attached

section Sized
variable (linked : f.Linked) (tame : ∀ key, f.Contains key → (f.box key).Tame) (attached : f.Attached key)
include linked tame attached

theorem padded_of_tame (axis : Axis) : (f.box key).Padded axis := (tame key (attached.contains (contains_root linked))).padded axis

omit tame in
theorem weighed_sizeStep (padded : ∀ key, f.Attached key → (f.box key).Padded axis) (keep : Bool) :
    ((f.sizeStep axis keep).box key).Weighed axis := by
  have each : ∀ b ∈ (f.boxesAt (f.outline .root)).preorder, b.Padded axis := by
    rw [boxesAt,Tree.preorder_map]
    exact List.forall_mem_map.mpr fun key member => padded key (linked.mem_outline_root.mp member)
  have sized := Tree.weighed_sized each keep false
  rw [← boxesAt_sizeStep linked,boxesAt,Tree.preorder_map,List.forall_mem_map] at sized
  exact sized key (linked.mem_outline_root.mpr attached)

theorem weighed_lastSized (axis : Axis) : ((f.lastSized axis).box key).Weighed axis := by
  have same := sameLinks_passes (lastPass_mem f)
  have there := same.linked linked
  have kept : ∀ {other : Key}, f.Attached other → ∀ {b}, Box.SameKept (f.lastPass.1.box other) b → b.Padded axis := by
    intro other inside b more
    unfold Box.Padded
    rw [← ((passes_kept linked (lastPass_mem f) inside).trans more).inputs.padding]
    exact padded_of_tame linked tame inside axis
  unfold lastSized
  generalize f.lastPass.1 = g at *
  generalize f.lastPass.2 = keep at *
  cases axis with
  | x => exact weighed_sizeStep there (same.within_iff.mpr attached) (fun other inside => kept (same.within_iff.mp inside) (.refl _)) keep
  | y =>
      have across := sameLinks_placedOn g keep .x
      refine weighed_sizeStep (across.linked there) (across.within_iff.mpr (same.within_iff.mpr attached)) (fun other inside => ?_) keep
      have inside' := across.within_iff.mp inside
      exact kept (same.within_iff.mp inside') (placedOn_kept there keep .x inside')

theorem spaced_lastSized (axis : Axis) : ((f.lastSized axis).box key).Spaced axis := by
  have sides : ∀ side ∈ (f.box key).margins.sides, side.IsFinite ∧ 0 ≤ side := fun side listed =>
    (tame key (attached.contains (contains_root linked))).1 side (List.mem_append_left _ listed)
  rw [(lastSized_kept linked attached axis).inputs.margins] at sides
  have start := sides _ (Spacing.start_mem_sides _ axis)
  have finish := sides _ (Spacing.finish_mem_sides _ axis)
  exact ⟨start.1,finish.1,start.2,finish.2⟩

end Sized

theorem nonneg_space (b : Box) (axis : Axis) : 0 ≤ (b.contentSpan axis).space := by
  cases axis <;> exact nonneg_positivePart

namespace OnRun
variable {part : List Key} {run : Run} {last : Bool} (placed : f.OnRun key axis part run last)
include placed

theorem map_standing {α : Type} {read : Box → α} (unmarked : ∀ b mark, read (b.withBreak mark) = read b) :
    run.standing.map read = part.map fun child => read ((f.lastSized axis).box child) := by
  have sized := placed.sized
  generalize run.standing = standing at sized
  clear placed
  induction sized with
  | nil => rfl
  | cons one _ ih =>
      obtain ⟨mark,rfl⟩ := one
      rw [List.map_cons,List.map_cons,ih,unmarked]

theorem forall_standing {P : Box → Prop} (marked : ∀ b mark, P b → P (b.withBreak mark))
    (all : ∀ child ∈ part, P ((f.lastSized axis).box child)) : ∀ b ∈ run.standing, P b := by
  intro b member
  obtain ⟨child,inside,mark,rfl⟩ := Tree.related_of_mem placed.sized member
  exact marked _ mark (all child inside)

theorem length_standing : run.standing.length = part.length := placed.sized.length_eq.symm

theorem exactLength_standing : exactLength axis run.standing = exactLength axis (part.map (f.lastSized axis).box) := by
  unfold exactLength
  rw [placed.map_standing fun _ _ => rfl,List.map_map]
  rfl

theorem used_eq : run.used = runLength axis (part.map (f.lastSized axis).box) := by
  have unmarked : ∀ xs : List Box, runLength axis (xs.map (·.withBreak false)) = runLength axis xs := fun xs => by
    rw [runLength,List.foldl_map]
    rfl
  have same : run.standing.map (·.withBreak false) = part.map fun child => ((f.lastSized axis).box child).withBreak false :=
    placed.map_standing fun _ _ => rfl
  have there := unmarked (part.map (f.lastSized axis).box)
  rw [List.map_map] at there
  rw [placed.tallied.counts.used,← unmarked run.standing,same]
  exact there

theorem stands_last : ∀ child ∈ part.getLast?, ∃ p ∈ ((run.place axis ((f.update.box key).contentSpan axis) (f.box key).container.alignment
    (f.box key).arrangement.wraps last).filter (·.flags.inFlow)).getLast?, (f.update.box child).Stands axis ((f.update.box key).clip axis) p := by
  exact getLast?_related placed.stands

theorem extent_eq (unclipped : (f.update.box key).clip axis = none) {shares : Run.Shares}
    (shown : run.shares ((f.update.box key).contentSpan axis).space (f.box key).container.alignment (f.box key).arrangement.wraps last = shares) :
    ∀ child ∈ part, (f.update.box child).extent axis =
      shares.final axis (shares.bonus axis run.standing) ((f.lastSized axis).box child) := by
  have stands := placed.stands
  rw [Run.standing_place,shown] at stands
  have through := forall₂_through stands (Run.Shares.placeFrom_related _ axis _ _ _ run.standing)
  have both := (List.Forall₂.mp (fun _ _ one two => And.intro one two) placed.sized through).flip
  have flows := (List.forall₂_and_left _ _).mpr ⟨run.flows_standing,both⟩
  intro child member
  obtain ⟨b,_,inFlow,⟨mark,rfl⟩,p,written,_,size⟩ := Tree.related_of_mem flows member
  rw [written.extent,unclipped]
  exact size inFlow

theorem exists_standing : ∀ child ∈ part, ∃ b ∈ run.standing, ∃ mark, b = ((f.lastSized axis).box child).withBreak mark := by
  intro child member
  obtain ⟨b,inside,mark⟩ := Tree.related_of_mem placed.sized.flip member
  exact ⟨b,inside,mark⟩

theorem fillers_eq : run.fillers = part.countP fun child => ((f.lastSized axis).box child).flags.fills axis := by
  have fills : run.standing.map (·.flags.fills axis) = part.map fun child => ((f.lastSized axis).box child).flags.fills axis :=
    placed.map_standing fun _ _ => rfl
  have count : ∀ xs : List Box, xs.countP (·.flags.fills axis) = (xs.map (·.flags.fills axis)).countP id := fun xs => by
    rw [List.countP_map]
    rfl
  rw [placed.tallied.fillers,count,fills,List.countP_map]
  rfl

theorem fitting (linked : f.Linked) (tame : ∀ key, f.Contains key → (f.box key).Tame) (inside : ∀ child ∈ part, f.Attached child)
    (low : ∀ child ∈ part, ((f.lastSized axis).box child).flags.fills axis = true →
      ¬IsSet (((f.lastSized axis).box child).effectiveMinimum axis))
    (offset : ((f.update.box key).contentSpan axis).offset.IsFinite) {weight : ℚ} (light : exactLength axis run.standing ≤ weight)
    (within : Run.InRange ((f.update.box key).contentSpan axis) weight part.length) :
    run.Fitting axis ((f.update.box key).contentSpan axis) weight := by
  have spaced := placed.forall_standing (fun b mark spaced => ⟨spaced.start,spaced.finish,spaced.afterStart,spaced.beforeFinish⟩)
    fun child member => spaced_lastSized linked tame (inside child member) axis
  have nonneg : ∀ b ∈ run.standing, ¬b.flags.fills axis = true → 0 ≤ b.extent axis :=
    placed.forall_standing (fun _ _ here => here) fun child member _ => (weighed_lastSized linked tame (inside child member) axis).nonneg
  have low' : ∀ b ∈ run.standing, b.flags.fills axis = true → ¬IsSet (b.effectiveMinimum axis) :=
    placed.forall_standing (fun _ _ here => here) low
  rw [← placed.length_standing] at within
  exact Run.fitting_of_range placed.tallied spaced nonneg low' offset (nonneg_space _ axis) light within

end OnRun

def overshoot (f : Forest) (key : Key) (axis : Axis) (child : Key) : ℚ :=
  (f.update.box child).outerEnd axis -
    (((f.update.box key).contentSpan axis).offset.value + ((f.update.box key).contentSpan axis).space.value)

theorem value_boundsTolerance : boundsTolerance.value = 1 / 2 := by
  have rank : boundsTolerance.rank = some (2 ^ 148) := by decide +kernel
  rw [value_of_rank rank]
  norm_num [Number.Format.single]

end Forest
end BoxLayout
