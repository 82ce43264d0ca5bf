import BoxLayout.Proofs.Forest.RunEnds
import BoxLayout.Proofs.Layout.Filled

namespace BoxLayout.Forest
open Single

-- Fillers and what is left over on the runs of a container after an update.

variable {f : Forest} {key widest : Key} {axis : Axis} {part : List Key}

def leftoverOn (f : Forest) (key : Key) (axis : Axis) (part : List Key) : Single :=
  ((f.update.box key).contentSpan axis).space - runLength axis (part.map (f.lastSized axis).box)

def evenShare (f : Forest) (key : Key) (axis : Axis) (part : List Key) : Single :=
  f.leftoverOn key axis part / .ofNat (part.countP fun child => (f.box child).flags.fills axis)

-- How far the roundings may move the end of a run, as its children are in the end, and that
-- none of them is too large for it.
def roundingOn (f : Forest) (key : Key) (axis : Axis) (part : List Key) : ℚ :=
  Run.rounding ((f.update.box key).contentSpan axis) (exactLength axis (part.map f.update.box)) part.length

def InRangeOn (f : Forest) (key : Key) (axis : Axis) (part : List Key) : Prop :=
  Run.InRange ((f.update.box key).contentSpan axis) (exactLength axis (part.map f.update.box)) part.length

def ShortOn (f : Forest) (key : Key) (axis : Axis) (part : List Key) : Prop :=
  Run.Short ((f.update.box key).contentSpan axis) (exactLength axis (part.map f.update.box)) part.length

def Bare (f : Forest) (axis : Axis) (key : Key) : Prop :=
  ¬IsSet ((f.box key).minimum axis) ∧ (f.box key).container.preventCrush.get axis = false

-- A run of an attached container that does not clip its children, with something left over
-- and no minimum on its fillers.
structure Roomy (f : Forest) (key : Key) (axis : Axis) (part : List Key) : Prop where
  attached : f.Attached key
  stacked : (f.box key).arrangement.primaryAxis? = some axis
  unclipped : (f.box key).container.constrainSize = false
  run : part ∈ f.update.runsOf key
  room : 0 < f.leftoverOn key axis part
  bare : ∀ child ∈ part, (f.box child).flags.fills axis = true → f.Bare axis child

structure Unbounded (f : Forest) (axis : Axis) (part : List Key) (key : Key) : Prop where
  listed : key ∈ part
  fills : (f.box key).flags.fills axis = true
  unlimited : ¬IsSet ((f.box key).maximum axis)

theorem inputs_lastSized (linked : f.Linked) (attached : f.Attached key) (axis : Axis) :
    ((f.lastSized axis).box key).flags.fills axis = (f.box key).flags.fills axis ∧
      ((f.lastSized axis).box key).maximum axis = (f.box key).maximum axis ∧
      (f.Bare axis key → ¬IsSet (((f.lastSized axis).box key).effectiveMinimum axis)) := by
  have inputs := (lastSized_kept linked attached axis).inputs
  refine ⟨(inputs.matching axis).fills.symm,(inputs.matching axis).maximum.symm,fun bare set => bare.1 ?_⟩
  have crushable : ((f.lastSized axis).box key).container.preventCrush.get axis = false := by
    rw [← inputs.container]
    exact bare.2
  rw [(inputs.matching axis).minimum]
  unfold Box.effectiveMinimum at set
  rwa [crushable,if_neg Bool.false_ne_true] at set

theorem marginsOn_update (linked : f.Linked) (attached : f.Attached key) (axis : Axis) :
    (f.update.box key).marginsOn axis = ((f.lastSized axis).box key).marginsOn axis := by
  have margins := (update_kept linked attached).inputs.margins.symm.trans (lastSized_kept linked attached axis).inputs.margins
  unfold Box.marginsOn
  rw [margins]

theorem fills_update (linked : f.Linked) (attached : f.Attached key) (axis : Axis) :
    (f.update.box key).flags.fills axis = (f.box key).flags.fills axis :=
  (((update_kept linked attached).inputs.matching axis).fills).symm

theorem lengthOnRun_filler {b : Box} (fills : b.flags.fills axis = true) : (b.lengthOnRun axis).value = 0 :=
  (congrArg value (if_pos fills)).trans value_zero

theorem lengthOnRun_other {b : Box} (fills : ¬b.flags.fills axis = true) : b.lengthOnRun axis = b.extent axis := if_neg fills

section Given
variable (linked : f.Linked) (tame : ∀ key, f.Contains key → (f.box key).Tame) (inside : ∀ child ∈ part, f.Attached child)
  {run : Run} {last : Bool} {shares : Run.Shares} (placed : f.OnRun key axis part run last) (even : shares.eater = 0)
  (sizes : ∀ child ∈ part, (f.update.box child).extent axis =
    shares.final axis (shares.bonus axis run.standing) ((f.lastSized axis).box child))
include linked tame inside placed even sizes

omit tame placed even in
theorem length_first : ∀ child ∈ part, ¬(f.box child).flags.fills axis = true →
    (f.update.box child).lengthOnRun axis = shares.first axis ((f.lastSized axis).box child) := by
  intro child member other
  rw [lengthOnRun_other (by rwa [fills_update linked (inside child member)]),sizes child member]
  exact Run.Shares.final_of_not_fills (by rwa [(inputs_lastSized linked (inside child member) axis).1])

theorem length_le : exactLength axis run.standing ≤ exactLength axis (part.map f.update.box) := by
  rw [placed.exactLength_standing]
  unfold exactLength
  rw [List.map_map,List.map_map]
  refine List.sum_le_sum fun child member => ?_
  have fills := (inputs_lastSized linked (inside child member) axis).1
  dsimp only [Function.comp_apply]
  rw [marginsOn_update linked (inside child member)]
  refine add_le_add_right ?_ _
  by_cases other : (f.box child).flags.fills axis = true
  · rw [lengthOnRun_filler (fills.trans other),lengthOnRun_filler ((fills_update linked (inside child member) axis).trans other)]
  · have other' : ¬((f.lastSized axis).box child).flags.fills axis = true := by rwa [fills]
    rw [length_first linked inside sizes child member other,lengthOnRun_other other']
    exact Run.Shares.le_first_other other' even (weighed_lastSized linked tame (inside child member) axis)

omit placed even in
theorem kept_eq : ∀ child ∈ part, 0 ≤ (f.update.box child).marginsOn axis ∧ 0 ≤ ((f.update.box child).lengthOnRun axis).value ∧
    shares.kept axis ((f.lastSized axis).box child) = ((f.update.box child).lengthOnRun axis).value := by
  intro child member
  have fills := (inputs_lastSized linked (inside child member) axis).1
  rw [marginsOn_update linked (inside child member)]
  refine ⟨(spaced_lastSized linked tame (inside child member) axis).marginsOn_nonneg,?_⟩
  by_cases other : (f.box child).flags.fills axis = true
  · rw [lengthOnRun_filler ((fills_update linked (inside child member) axis).trans other)]
    exact ⟨le_rfl,if_pos (fills.trans other)⟩
  · have other' : ¬((f.lastSized axis).box child).flags.fills axis = true := by rwa [fills]
    have weighed := weighed_lastSized linked tame (inside child member) axis
    rw [length_first linked inside sizes child member other]
    exact ⟨value_nonneg (Run.Shares.nonneg_first other' weighed.nonneg),if_neg other'⟩

omit even in
theorem kept_le : run.allMargins axis + (run.standing.map (shares.kept axis)).sum ≤ exactLength axis (part.map f.update.box) := by
  rw [Run.allMargins,placed.map_standing fun _ _ => rfl,placed.map_standing fun _ _ => rfl,exactLength,List.map_map,← List.sum_map_add]
  refine List.sum_le_sum fun child member => ?_
  rw [(kept_eq linked tame inside sizes child member).2.2,← marginsOn_update linked (inside child member)]
  exact le_rfl

omit placed even in
theorem first_le_length : ∀ child ∈ part, ¬(f.box child).flags.fills axis = true →
    (shares.first axis ((f.lastSized axis).box child)).value ≤ exactLength axis (part.map f.update.box) := by
  intro child member other
  have brought : ∀ child ∈ part, 0 ≤ (f.update.box child).marginsOn axis + ((f.update.box child).lengthOnRun axis).value := by
    intro child member
    obtain ⟨margins,length,_⟩ := kept_eq linked tame inside sizes child member
    exact add_nonneg margins length
  have one : (f.update.box child).marginsOn axis + ((f.update.box child).lengthOnRun axis).value ≤ exactLength axis (part.map f.update.box) := by
    rw [exactLength,List.map_map]
    exact List.single_le_sum (List.forall_mem_map.mpr brought) _ (List.mem_map.mpr ⟨child,member,rfl⟩)
  rw [← length_first linked inside sizes child member other]
  linarith [(kept_eq linked tame inside sizes child member).1]

omit even in
theorem finite_first (within : f.InRangeOn key axis part) (nonneg : 0 ≤ exactLength axis (part.map f.update.box)) :
    ∀ b ∈ run.standing, ¬b.flags.fills axis = true → (shares.first axis b).IsFinite := by
  refine placed.forall_standing (fun _ _ here => here) fun child member other => ?_
  have fills := (inputs_lastSized linked (inside child member) axis).1
  have positive : 0 ≤ shares.first axis ((f.lastSized axis).box child) :=
    Run.Shares.nonneg_first other (weighed_lastSized linked tame (inside child member) axis).nonneg
  have less := first_le_length linked tame inside sizes child member (by rwa [← fills])
  have space := nonneg_space (f.update.box key) axis
  exact Run.InRange.isFinite space nonneg within positive (by linarith [value_nonneg space])

omit tame even sizes in
theorem filler_eq : (((f.update.box key).contentSpan axis).space - run.used) / .ofNat run.fillers = f.evenShare key axis part := by
  have count : run.fillers = part.countP fun child => (f.box child).flags.fills axis :=
    placed.fillers_eq.trans (List.countP_congr fun child member => by rw [(inputs_lastSized linked (inside child member) axis).1])
  rw [evenShare,leftoverOn,← placed.used_eq,count]

end Given

-- On every run with something left over, among whose fillers none has a minimum and one no
-- maximum either, the last child ends where the content does, but for the roundings. No
-- maximum may lie between the even share and what the fillers without one come to.
theorem leftover_filled (path : f.Reachable) (tame : ∀ key, f.Contains key → (f.box key).Tame) (roomy : f.Roomy key axis part)
    (unbounded : f.Unbounded axis part widest)
    (spares : ∀ child ∈ part, (f.box child).flags.fills axis = true → IsSet ((f.box child).maximum axis) →
      (f.box child).maximum axis < f.evenShare key axis part ∨ (f.update.box widest).extent axis ≤ (f.box child).maximum axis)
    (offset : ((f.update.box key).contentSpan axis).offset.IsFinite) (within : f.InRangeOn key axis part) :
    ∀ child ∈ part.getLast?, |f.overshoot key axis child| ≤ f.roundingOn key axis part ∧
      (f.ShortOn key axis part → |f.overshoot key axis child| ≤ boundsTolerance.value) := by
  obtain ⟨attached,stacked,unclipped,run,room,bare⟩ := roomy
  obtain ⟨listed,fills,unlimited⟩ := unbounded
  have linked := path.linked
  have inside : ∀ child ∈ part, f.Attached child := fun child member =>
    .child (linked.mem_children.mp (mem_runsOf linked attached run child member)) attached
  have clip : (f.update.box key).clip axis = none := if_neg (by rw [← (update_kept linked attached).inputs.container,unclipped]; nofun)
  obtain ⟨run,last,placed⟩ := onRun_update linked attached stacked run
  obtain ⟨shares,shown⟩ : ∃ shares, run.shares ((f.update.box key).contentSpan axis).space (f.box key).container.alignment
    (f.box key).arrangement.wraps last = shares := ⟨_,rfl⟩
  have sizes := placed.extent_eq clip shown
  have inputs := fun child member => inputs_lastSized linked (inside child member) axis
  obtain ⟨o,stands,mark,rfl⟩ := placed.exists_standing widest listed
  have fills' := (inputs widest listed).1.trans fills
  have room' : 0 < ((f.update.box key).contentSpan axis).space - run.used := by
    rw [placed.used_eq]
    exact room
  have even : shares.eater = 0 := shown ▸ Run.eater_eq_zero (.inr room')
  have filler : shares.filler = f.evenShare key axis part := by
    rw [← shown,Run.shares_filling room' (Run.fillers_pos placed.tallied stands fills')]
    exact filler_eq linked inside placed
  -- the run as it was sized is no longer than the run in the end, and that one is in range
  have light := length_le linked tame inside placed even sizes
  have fitting := placed.fitting linked tame inside (fun child member fills =>
    (inputs child member).2.2 (bare child member ((inputs child member).1.symm.trans fills))) offset light within
  have weighed := placed.forall_standing (fun _ _ here => ⟨here.nonneg,here.grown,here.within⟩) fun child member =>
    weighed_lastSized linked tame (inside child member) axis
  have others := finite_first linked tame inside placed sizes within fitting.weight_nonneg
  have spares' : ∀ b ∈ run.standing, b.flags.fills axis = true →
      shares.Spares axis (shares.bonus axis run.standing) ((f.lastSized axis).box widest) b := by
    refine placed.forall_standing (fun _ _ here => here) fun child member fills set => ?_
    rw [filler,← sizes widest listed,(inputs child member).2.1]
    exact spares child member ((inputs child member).1.symm.trans fills) (by rwa [← (inputs child member).2.1])
  have unlimited' : ¬IsSet (((f.lastSized axis).box widest).maximum axis) := by rwa [(inputs widest listed).2.1]
  have ended := fitting.filled shown room' stands fills' unlimited' weighed others (kept_le linked tame inside placed sizes) spares'
  rw [placed.length_standing] at ended
  intro child found
  obtain ⟨p,found,written⟩ := placed.stands_last child found
  rw [clip] at written
  have apart : |f.overshoot key axis child| ≤ f.roundingOn key axis part := by
    rw [overshoot,written.outerEnd_eq]
    exact ended p found
  refine ⟨apart,fun short => apart.trans ?_⟩
  rw [value_boundsTolerance]
  exact Run.Short.rounding_le (nonneg_space _ axis) fitting.weight_nonneg short

def capped : Forest := after
  [.setContainerFlags .root (.ofWord 1),.setSize .root ⟨300,10⟩,.createChild .root,.setSize ⟨1⟩ ⟨30,10⟩,
    .setMargins ⟨1⟩ ⟨5,0,5,0⟩,.createChild .root,.setLayoutFlags ⟨2⟩ (.ofWord 3),.setMaximumSize ⟨2⟩ ⟨50,unset⟩,
    .createChild .root,.setLayoutFlags ⟨3⟩ (.ofWord 3),.setMaximumSize ⟨3⟩ ⟨200,unset⟩,
    .createChild .root,.setLayoutFlags ⟨4⟩ (.ofWord 3)]

theorem leftover_filled_capped :
    capped.Reachable ∧ (∀ key, capped.Contains key → (capped.box key).Tame) ∧ capped.Roomy .root .x [⟨1⟩,⟨2⟩,⟨3⟩,⟨4⟩] ∧
      capped.Unbounded .x [⟨1⟩,⟨2⟩,⟨3⟩,⟨4⟩] ⟨4⟩ ∧ capped.InRangeOn .root .x [⟨1⟩,⟨2⟩,⟨3⟩,⟨4⟩] ∧
      capped.evenShare .root .x [⟨1⟩,⟨2⟩,⟨3⟩,⟨4⟩] < 87 ∧
      (capped.children .root).map (fun key => (capped.update.box key).extent .x) = [30,50,105,105] ∧
      |capped.overshoot .root .x ⟨4⟩| ≤ boundsTolerance.value := by
  have path : capped.Reachable := reachable_after _
  have checked : ∀ key ∈ capped.keys, (capped.box key).Tame := by decide +kernel
  have tame : ∀ key, capped.Contains key → (capped.box key).Tame := fun key present => checked key (mem_keys.mpr present)
  have bare : ∀ child ∈ [⟨1⟩,⟨2⟩,⟨3⟩,⟨4⟩], (capped.box child).flags.fills .x = true → capped.Bare .x child := by
    unfold Bare
    decide +kernel
  have roomy : capped.Roomy .root .x [⟨1⟩,⟨2⟩,⟨3⟩,⟨4⟩] :=
    ⟨.self,by decide +kernel,by decide +kernel,by decide +kernel,by decide +kernel,bare⟩
  have unbounded : capped.Unbounded .x [⟨1⟩,⟨2⟩,⟨3⟩,⟨4⟩] ⟨4⟩ := ⟨by decide,by decide +kernel,by decide +kernel⟩
  have spares : ∀ child ∈ [⟨1⟩,⟨2⟩,⟨3⟩,⟨4⟩], (capped.box child).flags.fills .x = true → IsSet ((capped.box child).maximum .x) →
      (capped.box child).maximum .x < capped.evenShare .root .x [⟨1⟩,⟨2⟩,⟨3⟩,⟨4⟩] ∨
        (capped.update.box ⟨4⟩).extent .x ≤ (capped.box child).maximum .x := by decide +kernel
  have numbers : capped.InRangeOn .root .x [⟨1⟩,⟨2⟩,⟨3⟩,⟨4⟩] ∧ capped.ShortOn .root .x [⟨1⟩,⟨2⟩,⟨3⟩,⟨4⟩] := by
    unfold InRangeOn ShortOn Run.InRange Run.Short
    decide +kernel
  have start : ((capped.update.box .root).contentSpan .x).offset = 0 := by decide +kernel
  have ended := leftover_filled path tame roomy unbounded spares (by rw [start]; exact isFinite_zero) numbers.1
  exact ⟨path,tame,roomy,unbounded,numbers.1,by decide +kernel,by decide +kernel,(ended ⟨4⟩ rfl).2 numbers.2⟩

def FillsLeftover (f : Forest) : Prop := ∀ key axis part, f.Roomy key axis part → (∃ filler, f.Unbounded axis part filler) →
  ∀ child ∈ part.getLast?, |f.overshoot key axis child| ≤ boundsTolerance.value

-- A maximum of fifty frees fifty, and of these the maximum of a hundred and ten leaves some.
def overfull : Forest := after
  [.setContainerFlags .root (.ofWord 1),.setSize .root ⟨300,10⟩,
    .createChild .root,.setLayoutFlags ⟨1⟩ (.ofWord 3),.setMaximumSize ⟨1⟩ ⟨50,unset⟩,
    .createChild .root,.setLayoutFlags ⟨2⟩ (.ofWord 3),.setMaximumSize ⟨2⟩ ⟨110,unset⟩,
    .createChild .root,.setLayoutFlags ⟨3⟩ (.ofWord 3)]

-- Far from the origin a step between two numbers is so wide that thirty-three thin margins
-- and a filler end half a unit too far.
def farAway : Forest := after <|
  [.setContainerFlags .root (.ofWord 1)] ++
  (List.range 33).flatMap (fun i => [.createChild ⟨i⟩,.setMargins ⟨i + 1⟩ ⟨1000,0,1000,0⟩,.setPadding ⟨i + 1⟩ ⟨1000,0,1000,0⟩]) ++
  [.createChild .root,.setContainerFlags ⟨34⟩ (.ofWord 1),.setSize ⟨34⟩ ⟨1000,1⟩] ++
  (List.range 33).flatMap (fun i => [.createChild ⟨34⟩,.setMargins ⟨i + 35⟩ ⟨.ofRatio false 79 10000,0,.ofRatio false 79 10000,0⟩]) ++
  [.createChild ⟨34⟩,.setLayoutFlags ⟨68⟩ (.ofWord 3)]

def farRun : List Key := (List.range 34).map fun i => ⟨i + 35⟩

set_option maxRecDepth 10000 in
theorem roomy_farAway : (∀ key ∈ farAway.keys, (farAway.box key).Modest) ∧ farAway.Roomy ⟨34⟩ .x farRun ∧
    farAway.Unbounded .x farRun ⟨68⟩ ∧ 1 / 2 < farAway.overshoot ⟨34⟩ .x ⟨68⟩ := by
  have inputs : (∀ key ∈ farAway.keys, (farAway.box key).Modest) ∧ (farAway.links ⟨34⟩).parent = some .root ∧
      (farAway.box ⟨34⟩).arrangement.primaryAxis? = some .x ∧ (farAway.box ⟨34⟩).container.constrainSize = false ∧
      ∀ child ∈ farRun, (¬IsSet ((farAway.box child).minimum .x) ∧ (farAway.box child).container.preventCrush.get .x = false) ∧
        (child = ⟨68⟩ → (farAway.box child).flags.fills .x = true ∧ ¬IsSet ((farAway.box child).maximum .x)) := by decide +kernel
  have outcome : farRun ∈ farAway.update.runsOf ⟨34⟩ ∧ 1 / 2 < farAway.overshoot ⟨34⟩ .x ⟨68⟩ := by decide +kernel
  obtain ⟨modest,parent,stacked,unclipped,children⟩ := inputs
  have listed : ⟨68⟩ ∈ farRun := by decide
  obtain ⟨fills,unlimited⟩ := (children _ listed).2 rfl
  exact ⟨modest,⟨.child parent .self,stacked,unclipped,outcome.1,by decide +kernel,fun child member _ => (children child member).1⟩,
    ⟨listed,fills,unlimited⟩,outcome.2⟩

-- So either leaves a run that does not end where the content does.
theorem leftover_unfilled :
    (overfull.Reachable ∧ (∀ key, overfull.Contains key → (overfull.box key).Modest) ∧ ¬overfull.FillsLeftover) ∧
      farAway.Reachable ∧ (∀ key, farAway.Contains key → (farAway.box key).Modest) ∧ ¬farAway.FillsLeftover := by
  refine ⟨⟨reachable_after _,?_,fun always => ?_⟩,reachable_after _,?_,fun always => ?_⟩
  · have checked : ∀ key ∈ overfull.keys, (overfull.box key).Modest := by decide +kernel
    exact fun key present => checked key (mem_keys.mpr present)
  · have bare : ∀ child ∈ [⟨1⟩,⟨2⟩,⟨3⟩], (overfull.box child).flags.fills .x = true → overfull.Bare .x child := by
      unfold Bare
      decide +kernel
    have roomy : overfull.Roomy .root .x [⟨1⟩,⟨2⟩,⟨3⟩] :=
      ⟨.self,by decide +kernel,by decide +kernel,by decide +kernel,by decide +kernel,bare⟩
    have ended := always .root .x _ roomy ⟨⟨3⟩,by decide,by decide +kernel,by decide +kernel⟩ ⟨3⟩ rfl
    have short : overfull.overshoot .root .x ⟨3⟩ = -15 := by decide +kernel
    rw [short,value_boundsTolerance] at ended
    norm_num at ended
  · exact fun key present => roomy_farAway.1 key (mem_keys.mpr present)
  · obtain ⟨_,roomy,unbounded,past⟩ := roomy_farAway
    have ended := always ⟨34⟩ .x farRun roomy ⟨⟨68⟩,unbounded⟩ ⟨68⟩ rfl
    rw [value_boundsTolerance] at ended
    exact absurd ((le_abs_self _).trans ended) (not_le.mpr past)

end BoxLayout.Forest
