import BoxLayout.Proofs.Forest.Markers
import BoxLayout.Proofs.Forest.Nonneg
import BoxLayout.Proofs.Layout.Resized

namespace BoxLayout.Forest

-- Which children of a run change size when a context or a part of it is laid out.

variable {f : Forest} {key top : Key}

theorem ready_boxesAt (path : f.Reachable) (tame : ∀ key, f.Contains key → (f.box key).Tame)
    (plain : ∀ key, f.Contains key → ∀ axis, (f.box key).Plain axis) (outline : Tree Key) (axis : Axis) :
    ∀ b ∈ (f.boxesAt outline).preorder, b.Ready axis := by
  rw [boxesAt,Tree.preorder_map]
  refine List.forall_mem_map.mpr fun key _ => ?_
  by_cases present : f.Contains key
  · exact ⟨plain key present axis,(tame key present).padded axis,(path.coherent key).fixed_get axis⟩
  · have bare : f.box key = .new := by simp only [box,controls_of_missing present]
    rw [bare]
    refine ⟨?_,?_,?_⟩
    · unfold Box.Plain
      cases axis <;> decide
    · unfold Box.Padded
      cases axis <;> decide
    · cases axis <;> decide

-- On every run of every container laid out, in every pass: no child changes size but a
-- filler, and a flexible child of a container that does not wrap where nothing is left over.
-- It shrinks, to its minimum at the most. Fillers without bounds come out alike.
theorem runs_resized (path : f.Reachable) (tame : ∀ key, f.Contains key → (f.box key).Tame)
    (plain : ∀ key, f.Contains key → ∀ axis, (f.box key).Plain axis) (around : Option Surround) (top : Key)
    {keep : Bool} {axis : Axis} {t : Tree Box} (stage : (keep,axis,t) ∈ (f.boxesAt (f.outline top)).axisPasses around) :
    Tree.Paired (fun a sized b placed => b.arrangement.primaryAxis? = some axis → RunsResized axis a sized b placed)
      (t.sized axis keep false) (t.passAxis keep around axis) := by
  have ready := (Tree.axisPasses_kept stage).all (ready_boxesAt path tame plain _ axis) fun same here => here.of_kept same
  exact Tree.resized_passAxis ready keep around

def shrunk : Forest := after
  [.setContainerFlags .root (.ofWord 1),.setSize .root ⟨100,10⟩,.createChild .root,.setSize ⟨1⟩ ⟨30,10⟩,
    .createChild .root,.setMinimumSize ⟨2⟩ ⟨40,unset⟩,.createChild ⟨2⟩,.setSize ⟨3⟩ ⟨60,10⟩,
    .createChild .root,.createChild ⟨4⟩,.setSize ⟨5⟩ ⟨40,10⟩,
    .createChild .root,.setLayoutFlags ⟨6⟩ (.ofWord 3),.createChild .root,.setLayoutFlags ⟨7⟩ (.ofWord 3)]

theorem runs_resized_shrunk :
    shrunk.Reachable ∧ (∀ key, shrunk.Contains key → (shrunk.box key).Tame) ∧
      (∀ key, shrunk.Contains key → ∀ axis, (shrunk.box key).Plain axis) ∧
      Tree.Paired (fun a sized b placed => b.arrangement.primaryAxis? = some .x → RunsResized .x a sized b placed)
        ((shrunk.boxesAt (shrunk.outline .root)).sized .x false false)
        ((shrunk.boxesAt (shrunk.outline .root)).passAxis false none .x) ∧
      (((shrunk.boxesAt (shrunk.outline .root)).sized .x false false).preorder.map (·.extent .x)) = [100,30,60,60,40,40,0,0] ∧
      (((shrunk.boxesAt (shrunk.outline .root)).passAxis false none .x).preorder.map (·.extent .x)) = [100,30,45,60,25,40,0,0] := by
  have path : shrunk.Reachable := reachable_after _
  have checked : ∀ key ∈ shrunk.keys, (shrunk.box key).Tame ∧
      ∀ axis ∈ Axis.all, ¬(0 < (shrunk.box key).fixedSize.get axis ∧ (shrunk.box key).container.preventCrush.get axis = true) := by
    decide +kernel
  have tame : ∀ key, shrunk.Contains key → (shrunk.box key).Tame := fun key present => (checked key (mem_keys.mpr present)).1
  have plain : ∀ key, shrunk.Contains key → ∀ axis, (shrunk.box key).Plain axis := fun key present axis =>
    (checked key (mem_keys.mpr present)).2 axis (by cases axis <;> decide)
  have stage : (false,Axis.x,shrunk.boxesAt (shrunk.outline .root)) ∈ (shrunk.boxesAt (shrunk.outline .root)).axisPasses none :=
    List.mem_append_left _ List.mem_cons_self
  exact ⟨path,tame,plain,runs_resized path tame plain none .root stage,by decide +kernel,by decide +kernel⟩

end BoxLayout.Forest
