import Mathlib.Logic.Function.Iterate
import BoxLayout.Program.Frames
import BoxLayout.Proofs.Forest.Repeated
import BoxLayout.Proofs.Forest.Restored

namespace BoxLayout

-- Layouts repeated, up to the program that runs as many as it is asked for.

namespace Forest
variable {f : Forest}

theorem iterate_update (path : f.Reachable) (count : Nat) : update^[count + 1] f = f.update := by
  induction count with
  | zero => rfl
  | succ count ih => rw [Function.iterate_succ_apply',ih,update_update path.linked]

theorem updates_eq (path : f.Reachable) {count : Nat} (positive : 0 < count) : f.updates count = f.update := by
  have still := update_update path.linked
  cases count with
  | zero => omega
  | succ count =>
      unfold updates
      dsimp only
      split
      · rename_i settled
        exact settled.symm
      · cases count with
        | zero => rfl
        | succ count =>
            unfold updates
            rw [if_pos still]

end Forest

theorem Forest.ofFile_reachable {f : Forest} {path : String} {content : Except String String}
    (done : Forest.ofFile path content = .ok f) : f.Reachable := by
  unfold Forest.ofFile at done
  split at done
  · cases done
  · split at done
    · exact Snapshot.restore_leads _ _ done
    · cases done

theorem Script.outcome_loading {first second : Forest → Script} (path : String) (check : Option Failure) (files : Files)
    (same : ∀ f, f.Reachable → (first f).outcome files = (second f).outcome files) :
    (loading path check first).outcome files = (loading path check second).outcome files := by
  unfold loading
  simp only [outcome]
  split
  · cases check with
    | some failure => rfl
    | none =>
        simp only [outcome]
        cases loaded : Forest.ofFile path (files.content path) with
        | error e => rfl
        | ok f => exact same f (Forest.ofFile_reachable loaded)
  · rfl

namespace Frames

theorem resized_reachable {f : Forest} (path : f.Reachable) (o : FramesOptions) : (resized o f).Reachable := by
  unfold resized
  split
  · exact path
  · dsimp only
    split
    · rename_i set
      exact path.step (show (Command.setSize _ _).apply _ = .ok _ from set)
    · exact path

theorem laidOut_eq {f : Forest} (path : f.Reachable) (o : FramesOptions) : laidOut o f = (resized o f).update :=
  Forest.updates_eq (resized_reachable path o) (by omega)

end Frames

-- However many layouts follow one another, the state is the one the first left; the
-- same for layouts of one subtree; so the number of frames makes no difference.
theorem layouts_settle :
    (∀ f : Forest, f.Reachable → ∀ count, Forest.update^[count + 1] f = f.update) ∧
      (∀ (f : Forest) key, f.Reachable → f.Contains key → f.Acyclic key →
        ∃ g, f.updateSubtree key = .ok g ∧ g.updateSubtree key = .ok g) ∧
      ∀ (o : FramesOptions) (frames : Nat) (files : Files),
        (Frames.script { o with frames := frames }).outcome files = (Frames.script o).outcome files := by
  refine ⟨fun f path => Forest.iterate_update path,
    fun f key path present acyclic => Forest.updateSubtree_twice path.linked present acyclic,?_⟩
  intro o frames files
  have same : ∀ hit f, f.Reachable → (Frames.report { o with frames := frames } hit (Frames.laidOut { o with frames := frames } f)).outcome files =
      (Frames.report o hit (Frames.laidOut o f)).outcome files := by
    intro hit f path
    rw [Frames.laidOut_eq path,Frames.laidOut_eq path]
    rfl
  unfold Frames.script
  dsimp only
  split
  · exact Script.outcome_loading _ _ files (same none)
  · exact Script.outcome_loading _ _ files (same _)
  · rfl

def wrappedColumn : Forest := .after
  [.setContainerFlags .root (.ofWord 6),.setSize .root ⟨100,50⟩,.createChild .root,.setMinimumSize ⟨1⟩ ⟨10,40⟩,
    .createChild .root,.setMinimumSize ⟨2⟩ ⟨20,40⟩]

theorem wrappedColumn_settles :
    wrappedColumn.Reachable ∧ wrappedColumn.Contains ⟨1⟩ ∧ wrappedColumn.Acyclic ⟨1⟩ ∧
      Forest.update^[3] wrappedColumn = wrappedColumn.update ∧
      ∃ g, wrappedColumn.updateSubtree ⟨1⟩ = .ok g ∧ g.updateSubtree ⟨1⟩ = .ok g := by
  have path : wrappedColumn.Reachable := Forest.reachable_after _
  have present : wrappedColumn.Contains ⟨1⟩ := by decide
  have attached : wrappedColumn.Attached ⟨1⟩ := .child (by decide) .self
  have acyclic := (Forest.acyclic_root path.linked).within attached
  obtain ⟨whole,subtree,_⟩ := layouts_settle
  exact ⟨path,present,acyclic,whole _ path 2,subtree _ _ path present acyclic⟩

end BoxLayout
