import BoxLayout.Proofs.Forest.Filled
import BoxLayout.Proofs.Layout.Squeezed

namespace BoxLayout

def Box.leastOnRun (axis : Axis) (b : Box) : ℚ :=
  b.marginsOn axis + if b.flags.fills axis = true then 0 else if b.flexible axis = true then
    (if IsSet (b.effectiveMinimum axis) then (b.effectiveMinimum axis).value else 0) else (b.extent axis).value

namespace Forest
open Single

-- Flexible children of a container that does not wrap, and whether they make its run fit.

variable {f : Forest} {key child : Key} {axis : Axis}

-- The children in flow as the last pass sized them, how much longer they are together than
-- the content, and how many can shrink.
def sizedFlow (f : Forest) (key : Key) (axis : Axis) : List Box := (f.flow (f.children key)).map (f.lastSized axis).box

def missing (f : Forest) (key : Key) (axis : Axis) : ℚ :=
  exactLength axis (f.sizedFlow key axis) - ((f.update.box key).contentSpan axis).space.value

def givers (f : Forest) (key : Key) (axis : Axis) : Nat := (f.sizedFlow key axis).countP (·.flexible axis)

structure Sufficient (f : Forest) (key : Key) (axis : Axis) : Prop where
  attached : f.Attached key
  stacked : (f.box key).arrangement.primaryAxis? = some axis
  unwrapped : (f.box key).arrangement.wraps = false
  fits : ((f.sizedFlow key axis).map (Box.leastOnRun axis)).sum ≤ ((f.update.box key).contentSpan axis).space.value
  bare : ∀ child ∈ f.flow (f.children key), (f.box child).flags.fills axis = true → ¬IsSet ((f.box child).minimum axis)

-- A child does its part. A filler has no minimum, raised to its content or not; a fixed child
-- is not kept larger than it was sized; and a flexible one has an even part of what is
-- missing, above its minimum where there is no filler.
structure DoesItsPart (f : Forest) (key : Key) (axis : Axis) (b : Box) : Prop where
  filler : b.flags.fills axis = true → ¬IsSet (b.effectiveMinimum axis)
  fixed : b.flags.fills axis = false → b.flexible axis = false → b.Grown axis
  size : b.flexible axis = true → f.missing key axis ≤ f.givers key axis * (b.extent axis).value
  minimum : b.flexible axis = true → (∀ other ∈ f.sizedFlow key axis, other.flags.fills axis = false) → IsSet (b.effectiveMinimum axis) →
    f.missing key axis ≤ f.givers key axis * ((b.extent axis).value - (b.effectiveMinimum axis).value)

section Placed
variable {run : Run} {last : Bool} (placed : f.OnRun key axis (f.flow (f.children key)) run last)
include placed

theorem givers_eq : run.squeezed = f.givers key axis := by
  have flexible : run.standing.map (·.flexible axis) = (f.sizedFlow key axis).map (·.flexible axis) := by
    rw [placed.map_standing fun _ _ => rfl,sizedFlow,List.map_map]
    rfl
  have count : ∀ xs : List Box, xs.countP (·.flexible axis) = (xs.map (·.flexible axis)).countP id := fun xs => by
    rw [List.countP_map]
    rfl
  rw [placed.tallied.squeezed,givers,count,← flexible,← count]
  rfl

theorem missing_eq : run.leftover axis ((f.update.box key).contentSpan axis) = -f.missing key axis := by
  unfold Run.leftover missing sizedFlow
  rw [placed.exactLength_standing,neg_sub]

theorem length_of_rigid (rigid : run.squeezed = 0) : exactLength axis run.standing = ((f.sizedFlow key axis).map (Box.leastOnRun axis)).sum := by
  have none := (givers_eq placed).symm.trans rigid
  rw [placed.exactLength_standing]
  refine congrArg List.sum (List.map_congr_left fun b member => ?_)
  have stiff : ¬b.flexible axis = true := List.countP_eq_zero.mp none b member
  unfold Box.leastOnRun
  rw [if_neg stiff]
  by_cases fills : b.flags.fills axis = true
  · rw [if_pos fills,lengthOnRun_filler fills]
  · rw [if_neg fills,lengthOnRun_other fills]

theorem spare_of_part {b : Box} (part : f.DoesItsPart key axis b) (flexible : b.flexible axis = true) :
    run.Spare axis ((f.update.box key).contentSpan axis) b := by
  rw [Box.flexible_iff] at flexible
  have own := lengthOnRun_other flexible.1
  refine ⟨?_,fun alone set => ?_⟩
  · rw [own,missing_eq placed,givers_eq placed]
    linarith [part.size (Box.flexible_iff.mpr flexible)]
  · have none : ∀ other ∈ f.sizedFlow key axis, other.flags.fills axis = false := by
      rw [placed.fillers_eq] at alone
      refine List.forall_mem_map.mpr fun child member => ?_
      simpa using List.countP_eq_zero.mp alone child member
    rw [own,missing_eq placed,givers_eq placed]
    linarith [part.minimum (Box.flexible_iff.mpr flexible) none set]

end Placed

theorem grown_of_part (path : f.Reachable) (tame : ∀ key, f.Contains key → (f.box key).Tame) (attached : f.Attached child)
    (part : f.DoesItsPart key axis ((f.lastSized axis).box child)) (fills : ¬((f.lastSized axis).box child).flags.fills axis = true) :
    ((f.lastSized axis).box child).Grown axis := by
  have matching := (lastSized_kept path.linked attached axis).inputs.matching axis
  by_cases flexible : ((f.lastSized axis).box child).flexible axis = true
  · refine (weighed_lastSized path.linked tame attached axis).grown fun fixed => (Box.flexible_iff.mp flexible).2 ?_
    rw [← matching.fixed,(path.coherent child).fixed_get axis,matching.fixedSize]
    exact decide_eq_true fixed
  · exact part.fixed (Bool.eq_false_iff.mpr fills) (Bool.eq_false_iff.mpr flexible)

-- Where every child does, the last one ends within the content, but for the roundings.
theorem squeezed_within (path : f.Reachable) (tame : ∀ key, f.Contains key → (f.box key).Tame) (sufficient : f.Sufficient key axis)
    (parts : ∀ b ∈ f.sizedFlow key axis, f.DoesItsPart key axis b)
    (offset : ((f.update.box key).contentSpan axis).offset.IsFinite)
    (within : Run.InRange ((f.update.box key).contentSpan axis) (exactLength axis (f.sizedFlow key axis)) (f.sizedFlow key axis).length) :
    ∀ child ∈ (f.flow (f.children key)).getLast?, f.overshoot key axis child ≤
        Run.rounding ((f.update.box key).contentSpan axis) (exactLength axis (f.sizedFlow key axis)) (f.sizedFlow key axis).length ∧
      (Run.Short ((f.update.box key).contentSpan axis) (exactLength axis (f.sizedFlow key axis)) (f.sizedFlow key axis).length →
        f.overshoot key axis child ≤ boundsTolerance.value) := by
  obtain ⟨attached,stacked,unwrapped,fits,_⟩ := sufficient
  have linked := path.linked
  have inside : ∀ child ∈ f.flow (f.children key), f.Attached child := fun child member =>
    .child (linked.mem_children.mp (List.mem_of_mem_filter member)) attached
  have does : ∀ child ∈ f.flow (f.children key), f.DoesItsPart key axis ((f.lastSized axis).box child) := fun child member =>
    parts _ (List.mem_map_of_mem member)
  obtain ⟨run,placed⟩ := onRun_unwrapped linked attached stacked (Bool.eq_false_iff.mp unwrapped)
  intro child found
  have some : run.standing ≠ [] := by
    obtain ⟨b,stands,_⟩ := placed.exists_standing child (List.mem_of_getLast? found)
    exact List.ne_nil_of_mem stands
  have grown : ∀ b ∈ run.standing, ¬b.flags.fills axis = true → b.Grown axis :=
    placed.forall_standing (fun _ _ here => here) fun child member => grown_of_part path tame (inside child member) (does child member)
  have spare : ∀ b ∈ run.standing, b.flexible axis = true → run.Spare axis ((f.update.box key).contentSpan axis) b :=
    placed.forall_standing (fun _ _ here flexible => ⟨(here flexible).size,(here flexible).minimum⟩)
      fun child member => spare_of_part placed (does child member)
  have count : (f.sizedFlow key axis).length = (f.flow (f.children key)).length := List.length_map ..
  rw [count] at within ⊢
  have fitting := placed.fitting linked tame inside (fun child member => (does child member).filler) offset placed.exactLength_standing.le within
  obtain ⟨p,found,written⟩ := placed.stands_last child found
  rw [unwrapped] at found
  have ended := fitting.squeezed some grown (fun rigid => (length_of_rigid placed rigid).le.trans fits) spare p found
  rw [placed.length_standing] at ended
  have apart : f.overshoot key axis child ≤
      Run.rounding ((f.update.box key).contentSpan axis) (exactLength axis (f.sizedFlow key axis)) (f.flow (f.children key)).length := by
    unfold overshoot sizedFlow
    linarith [written.outerEnd_le]
  refine ⟨apart,fun short => apart.trans ?_⟩
  rw [value_boundsTolerance]
  exact Run.Short.rounding_le (nonneg_space _ axis) fitting.weight_nonneg short

def yielding : Forest := after
  [.setContainerFlags .root (.ofWord 1),.setSize .root ⟨100,10⟩,.createChild .root,.setSize ⟨1⟩ ⟨30,10⟩,
    .createChild .root,.setMinimumSize ⟨2⟩ ⟨20,unset⟩,.createChild ⟨2⟩,.setSize ⟨3⟩ ⟨60,10⟩,
    .createChild .root,.createChild ⟨4⟩,.setSize ⟨5⟩ ⟨40,10⟩]

theorem squeezed_within_yielding :
    yielding.Reachable ∧ (∀ key, yielding.Contains key → (yielding.box key).Tame) ∧ yielding.Sufficient .root .x ∧
      (∀ b ∈ yielding.sizedFlow .root .x, yielding.DoesItsPart .root .x b) ∧ yielding.missing .root .x = 30 ∧
      (yielding.children .root).map (fun key => (yielding.update.box key).extent .x) = [30,45,25] ∧
      yielding.overshoot .root .x ⟨4⟩ ≤ boundsTolerance.value := by
  have path : yielding.Reachable := reachable_after _
  have checked : ∀ key ∈ yielding.keys, (yielding.box key).Tame := by decide +kernel
  have tame : ∀ key, yielding.Contains key → (yielding.box key).Tame := fun key present => checked key (mem_keys.mpr present)
  have sufficient : yielding.Sufficient .root .x :=
    ⟨.self,by decide +kernel,by decide +kernel,by decide +kernel,by decide +kernel⟩
  have sizes : ∀ b ∈ yielding.sizedFlow .root .x, (b.flags.fills .x = true → ¬IsSet (b.effectiveMinimum .x)) ∧
      (b.flags.fills .x = false → b.flexible .x = false → IsSet (b.effectiveMinimum .x) → b.effectiveMinimum .x ≤ b.extent .x) ∧
      (b.flexible .x = true → yielding.missing .root .x ≤ yielding.givers .root .x * (b.extent .x).value ∧
        (IsSet (b.effectiveMinimum .x) →
          yielding.missing .root .x ≤ yielding.givers .root .x * ((b.extent .x).value - (b.effectiveMinimum .x).value))) := by
    decide +kernel
  have parts : ∀ b ∈ yielding.sizedFlow .root .x, yielding.DoesItsPart .root .x b := fun b member =>
    ⟨(sizes b member).1,(sizes b member).2.1,fun flexible => ((sizes b member).2.2 flexible).1,
      fun flexible _ => ((sizes b member).2.2 flexible).2⟩
  have start : ((yielding.update.box .root).contentSpan .x).offset = 0 := by decide +kernel
  have numbers : Run.InRange ((yielding.update.box .root).contentSpan .x) (exactLength .x (yielding.sizedFlow .root .x))
      (yielding.sizedFlow .root .x).length ∧ Run.Short ((yielding.update.box .root).contentSpan .x)
      (exactLength .x (yielding.sizedFlow .root .x)) (yielding.sizedFlow .root .x).length := by
    unfold Run.InRange Run.Short
    decide +kernel
  have ended := squeezed_within path tame sufficient parts (by rw [start]; exact isFinite_zero) numbers.1
  have last : ⟨4⟩ ∈ (yielding.flow (yielding.children .root)).getLast? := by decide +kernel
  exact ⟨path,tame,sufficient,parts,by decide +kernel,by decide +kernel,(ended ⟨4⟩ last).2 numbers.2⟩

def SqueezesToFit (f : Forest) : Prop := ∀ key axis, f.Sufficient key axis →
  ∀ child ∈ (f.flow (f.children key)).getLast?, f.overshoot key axis child ≤ boundsTolerance.value

-- One child has less than the even part of what is missing, and no other makes up for it.
def hollow : Forest := after
  [.setContainerFlags .root (.ofWord 1),.setSize .root ⟨100,10⟩,.createChild .root,.createChild ⟨1⟩,.setSize ⟨2⟩ ⟨20,10⟩,
    .createChild .root,.createChild ⟨3⟩,.setSize ⟨4⟩ ⟨200,10⟩]

-- Fillers kept from being crushed do not give what they were not handed.
def stiff : Forest := after
  [.setContainerFlags .root (.ofWord 1),.setSize .root ⟨100,10⟩,.createChild .root,.setSize ⟨1⟩ ⟨70,10⟩,
    .createChild .root,.setLayoutFlags ⟨2⟩ (.ofWord 3),.setContainerFlags ⟨2⟩ (.ofWord 65),.createChild ⟨2⟩,.setSize ⟨3⟩ ⟨20,10⟩,
    .createChild .root,.setLayoutFlags ⟨4⟩ (.ofWord 3),.setContainerFlags ⟨4⟩ (.ofWord 65),.createChild ⟨4⟩,.setSize ⟨5⟩ ⟨9,10⟩,
    .createChild .root,.setLayoutFlags ⟨6⟩ (.ofWord 3)]

-- A fixed child kept from being crushed goes by the content it had before it was fixed.
def remembered : Forest := after
  [.setContainerFlags .root (.ofWord 1),.setSize .root ⟨100,10⟩,.createChild .root,.createChild ⟨1⟩,.setSize ⟨2⟩ ⟨100,10⟩,.update,
    .setSize ⟨1⟩ ⟨50,10⟩,.setContainerFlags ⟨1⟩ (.ofWord 65),.createChild .root,.createChild ⟨3⟩,.setSize ⟨4⟩ ⟨50,10⟩]

theorem not_squeezesToFit (child : Key) (sufficient : f.Sufficient key axis) (last : child ∈ (f.flow (f.children key)).getLast?)
    (past : 1 / 2 < f.overshoot key axis child) : ¬f.SqueezesToFit := fun always =>
  absurd (value_boundsTolerance ▸ always key axis sufficient child last) (not_le.mpr past)

set_option maxRecDepth 10000 in
theorem sufficient_farAway : farAway.Sufficient ⟨34⟩ .x ∧ ⟨68⟩ ∈ (farAway.flow (farAway.children ⟨34⟩)).getLast? := by
  have facts : ((farAway.box ⟨34⟩).arrangement.wraps = false ∧ farAway.flow (farAway.children ⟨34⟩) = farRun) ∧
      ((farAway.sizedFlow ⟨34⟩ .x).map (Box.leastOnRun .x)).sum ≤ ((farAway.update.box ⟨34⟩).contentSpan .x).space.value := by
    decide +kernel
  obtain ⟨⟨unwrapped,flow⟩,fits⟩ := facts
  obtain ⟨_,roomy,_⟩ := roomy_farAway
  refine ⟨⟨roomy.attached,roomy.stacked,unwrapped,fits,?_⟩,?_⟩
  · rw [flow]
    exact fun child member fills => (roomy.bare child member fills).1
  · rw [flow]
    rfl

-- Each of these, and thin margins far from the origin, leaves a run too long.
theorem squeezed_past :
    (hollow.Reachable ∧ (∀ key, hollow.Contains key → (hollow.box key).Modest) ∧ ¬hollow.SqueezesToFit) ∧
      (stiff.Reachable ∧ (∀ key, stiff.Contains key → (stiff.box key).Modest) ∧ ¬stiff.SqueezesToFit) ∧
      (remembered.Reachable ∧ (∀ key, remembered.Contains key → (remembered.box key).Modest) ∧ ¬remembered.SqueezesToFit) ∧
      farAway.Reachable ∧ (∀ key, farAway.Contains key → (farAway.box key).Modest) ∧ ¬farAway.SqueezesToFit := by
  have modest : ∀ {g : Forest}, (∀ key ∈ g.keys, (g.box key).Modest) → ∀ key, g.Contains key → (g.box key).Modest :=
    fun checked key present => checked key (mem_keys.mpr present)
  refine ⟨⟨reachable_after _,modest (by decide +kernel),?_⟩,⟨reachable_after _,modest (by decide +kernel),?_⟩,
    ⟨reachable_after _,modest (by decide +kernel),?_⟩,reachable_after _,modest roomy_farAway.1,?_⟩
  · have sufficient : hollow.Sufficient .root .x :=
      ⟨.self,by decide +kernel,by decide +kernel,by decide +kernel,by decide +kernel⟩
    exact not_squeezesToFit ⟨3⟩ sufficient (by decide +kernel) (by decide +kernel)
  · have sufficient : stiff.Sufficient .root .x :=
      ⟨.self,by decide +kernel,by decide +kernel,by decide +kernel,by decide +kernel⟩
    exact not_squeezesToFit ⟨6⟩ sufficient (by decide +kernel) (by decide +kernel)
  · have sufficient : remembered.Sufficient .root .x :=
      ⟨.self,by decide +kernel,by decide +kernel,by decide +kernel,by decide +kernel⟩
    exact not_squeezesToFit ⟨3⟩ sufficient (by decide +kernel) (by decide +kernel)
  · obtain ⟨sufficient,last⟩ := sufficient_farAway
    exact not_squeezesToFit ⟨68⟩ sufficient last roomy_farAway.2.2.2

end Forest
end BoxLayout
