import BoxLayout.Forest.Bounds
import BoxLayout.Forest.Query
import BoxLayout.Proofs.Forest.KeptRuns
import BoxLayout.Proofs.Snapshot.Reloaded

namespace BoxLayout

-- Layouts of a reloaded forest next to layouts of the forest that was captured.

theorem Box.Agree.rect_eq {a b : Box} (agree : Agree (fun _ => True) a b) : a.rect = b.rect := by
  have position := PerAxis.eq_of_get fun axis => agree.start axis trivial
  have size := PerAxis.eq_of_get fun axis => agree.extent axis trivial
  exact congrArg₂ Rect.mk position size

namespace Forest
variable {f g : Forest} {key : Key}

theorem agree_update (here : f.Linked) (there : g.Linked) (outline : g.outline .root = f.outline .root)
    (inputs : ∀ key, f.Attached key → Box.SameInputs (f.box key) (g.box key)) (attached : f.Attached key) :
    Box.Agree (fun _ => True) (f.update.box key) (g.update.box key) := by
  have one := boxesAt_update here
  have two := boxesAt_update there
  rw [outline] at two
  have related : Tree.Related Box.SameInputs (f.boxesAt (f.outline .root)) (g.boxesAt (f.outline .root)) :=
    Tree.Related.maps.mpr fun key member => inputs key (here.mem_outline_root.mp member)
  have standing : Tree.Standing none (f.boxesAt (f.outline .root)) (g.boxesAt (f.outline .root)) := fun held =>
    absurd rfl held.1
  have agree := Tree.agree_layOut related standing
  rw [← one,← two] at agree
  exact Tree.Related.maps.mp agree key (here.mem_outline_root.mpr attached)

-- No content size is left over from before a size was fixed, at least where it would
-- be a minimum.
def Uncached (f : Forest) : Prop := ∀ key, f.Attached key → ∀ axis, 0 < (f.box key).fixedSize.get axis →
  (f.box key).container.preventCrush.get axis = true → (f.box key).contentSize.get axis = 0

theorem Uncached.inputs_replayed (uncached : f.Uncached) (attached : f.Attached key) :
    Box.SameInputs (f.box key) (f.box key).replayed := by
  refine ⟨rfl,rfl,rfl,rfl,rfl,rfl,rfl,rfl,fun axis fixed crush => ?_⟩
  rw [uncached key attached axis fixed crush]
  cases axis <;> rfl

theorem Reloads.agree_update (reloads : f.Reloads g) (here : f.Linked) (there : g.Linked) (uncached : f.Uncached)
    (attached : f.Attached key) : Box.Agree (fun _ => True) (f.update.box key) (g.update.box key) := by
  refine Forest.agree_update here there (reloads.outline_root here there) (fun key attached => ?_) attached
  rw [reloads.box]
  exact uncached.inputs_replayed attached

theorem update_replayed (path : f.Reachable) (recordable : f.Recordable) (uncached : f.Uncached) :
    ∃ g, f.capture.restore = .ok g ∧ ∀ key, f.Attached key →
      (g.update.box key).rect = (f.update.box key).rect ∧
        (g.update.box key).flags.isBreak = (f.update.box key).flags.isBreak := by
  obtain ⟨g,done⟩ := (wellFormed_capture path recordable).restores
  have describes := Snapshot.describes_of_restore done
  have reloads := Reloads.of_describes path recordable describes
  refine ⟨g,done,fun key attached => ?_⟩
  have agree := reloads.agree_update path.linked describes.linked uncached attached
  exact ⟨agree.rect_eq.symm,agree.isBreak.symm⟩

-- A control in a row, fixed before its first layout; and the same one fixed after it,
-- when its padding has been cached as content that it may not be crushed below.
def fixedEarly : Forest := after
  [.setContainerFlags .root (.ofWord 1),.setSize .root ⟨100,20⟩,.createChild .root,.setContainerFlags ⟨1⟩ (.ofWord 65),
    .setPadding ⟨1⟩ ⟨20,0,20,0⟩,.setSize ⟨1⟩ ⟨10,10⟩,.update]

def fixedLate : Forest := after
  [.setContainerFlags .root (.ofWord 1),.setSize .root ⟨100,20⟩,.createChild .root,.setContainerFlags ⟨1⟩ (.ofWord 65),
    .setPadding ⟨1⟩ ⟨20,0,20,0⟩,.update,.setSize ⟨1⟩ ⟨10,10⟩,.update]

theorem uncached_of_checked (linked : f.Linked)
    (checked : ∀ key ∈ f.keys, ∀ axis ∈ Axis.all, 0 < (f.box key).fixedSize.get axis →
      (f.box key).container.preventCrush.get axis = true → (f.box key).contentSize.get axis = 0) : f.Uncached := by
  intro key attached axis
  exact checked key (mem_keys.mpr (linked.contains_attached attached)) axis (by cases axis <;> decide)

theorem update_replayed_fixedEarly :
    fixedEarly.Reachable ∧ fixedEarly.Recordable ∧ fixedEarly.Uncached ∧
      ∃ g, fixedEarly.capture.restore = .ok g ∧ (g.update.box ⟨1⟩).rect = .ofNumbers 45 5 10 10 := by
  have path : fixedEarly.Reachable := reachable_after _
  have recordable : fixedEarly.Recordable := recordable_of_checked (by decide +kernel) (by decide +kernel)
  have uncached : fixedEarly.Uncached := uncached_of_checked path.linked (by decide +kernel)
  obtain ⟨g,done,same⟩ := update_replayed path recordable uncached
  refine ⟨path,recordable,uncached,g,done,?_⟩
  rw [(same ⟨1⟩ (.child (by decide +kernel) .self)).1]
  decide +kernel

-- The cached content is not captured: 40 wide before, 10 wide after.
theorem update_replayed_fails :
    ¬∀ f : Forest, f.Reachable → f.Recordable → ∃ g, f.capture.restore = .ok g ∧
      ∀ key, f.Attached key → (g.update.box key).rect = (f.update.box key).rect := by
  intro always
  have recordable : fixedLate.Recordable := recordable_of_checked (by decide +kernel) (by decide +kernel)
  obtain ⟨g,done,same⟩ := always fixedLate (reachable_after _) recordable
  have before : (fixedLate.update.box ⟨1⟩).rect = .ofNumbers 45 5 40 10 := by decide +kernel
  have after : fixedLate.capture.restore.map (fun g => (g.update.box ⟨1⟩).rect) = .ok (.ofNumbers 45 5 10 10) := by
    decide +kernel
  rw [done] at after
  have narrow : (g.update.box ⟨1⟩).rect = .ofNumbers 45 5 10 10 := Except.ok.inj after
  rw [same ⟨1⟩ (.child (by decide +kernel) .self),before] at narrow
  exact absurd narrow (by decide +kernel)

end Forest
end BoxLayout
