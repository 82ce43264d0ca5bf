import BoxLayout.Proofs.Program.Frames
import BoxLayout.Proofs.Snapshot.Replayed

namespace BoxLayout

-- Layouts of what was restored, captured and restored once more.

namespace Forest
variable {f g : Forest} {key : Key} {s : Snapshot}

structure SameControls (f g : Forest) : Prop where
  size : g.size = f.size
  tag : ∀ key, g.tag key = f.tag key
  box : ∀ key, g.box key = f.box key
  parent : ∀ key, (g.links key).parent = (f.links key).parent
  outline : g.outline .root = f.outline .root

theorem SameControls.capture_eq (same : SameControls f g) (here : f.Linked) (there : g.Linked) : g.capture = f.capture :=
  Forest.capture_eq here there same.size same.outline fun key => by
    unfold capturedNode
    rw [same.box,same.parent,same.tag]

theorem SameControls.verify_eq (same : SameControls f g) (here : f.Linked) (there : g.Linked) : g.verify = f.verify := by
  have violation : g.violation? = f.violation? := by
    funext key
    unfold violation? exempt
    simp only [same.box,same.parent]
  unfold verify
  rw [descendants_root here,descendants_root there,same.outline,violation]

theorem SameControls.hitTest_eq (same : SameControls f g) (point : PerAxis Single) : g.hitTest point = f.hitTest point := by
  unfold hitTest
  simp only [same.outline,same.box]

theorem Recordable.of_boxes (recordable : f.Recordable) (same : SameLinks f g)
    (boxes : ∀ key, (g.box key).container = (f.box key).container ∧ (g.box key).flags.undefined = (f.box key).flags.undefined) :
    g.Recordable where
  container key present := by
    rw [(boxes key).1]
    exact recordable.container key ((same.contains_iff key).mp present)
  flags key present := (boxes key).2.trans (recordable.flags key ((same.contains_iff key).mp present))
  apart key := by
    rw [same.links_eq]
    exact recordable.apart key
  numbered := by
    rw [same.size_eq]
    exact recordable.numbered

theorem box_update_kept (f : Forest) (key : Key) : Box.SameKept (f.box key) (f.update.box key) :=
  box_layOutAt_kept f none .root key

theorem Reachable.update (path : f.Reachable) : f.update.Reachable :=
  path.step (show Command.update.apply f = .ok f.update from rfl)

theorem Recordable.update (recordable : f.Recordable) : f.update.Recordable := by
  refine recordable.of_boxes (sameLinks_update f) fun key => ?_
  have same := (box_update_kept f key).inputs.symm
  have undefined : ((f.update.box key).withBreak false).flags.undefined = ((f.box key).withBreak false).flags.undefined :=
    congrArg LayoutFlags.undefined same.flags
  exact ⟨same.container,undefined⟩

structure Fresh (f : Forest) : Prop where
  reachable : f.Reachable
  recordable : f.Recordable
  unbroken : ∀ key, (f.box key).flags.isBreak = false
  uncached : ∀ key, (f.box key).contentSize = .both 0

theorem Fresh.setSize (fresh : f.Fresh) {size : PerAxis Single} (done : f.setSize key size = .ok g) : g.Fresh := by
  have path := fresh.reachable.step (show (Command.setSize key size).apply f = .ok g from done)
  obtain ⟨_,rfl⟩ := modifyBox_ok done
  have kept : ∀ other, let changed := (f.editBox key fun b =>
      { b with fixedSize := size.map fixedAt, flags := { b.flags with fixed := size.map fun part => decide (0 < part) } }).box other
      changed.container = (f.box other).container ∧ changed.flags.undefined = (f.box other).flags.undefined ∧
        changed.flags.isBreak = (f.box other).flags.isBreak ∧ changed.contentSize = (f.box other).contentSize := by
    intro other
    rcases box_editBox_cases f key other _ with same | ⟨_,resized⟩
    · rw [same]
      exact ⟨rfl,rfl,rfl,rfl⟩
    · rw [resized]
      exact ⟨rfl,rfl,rfl,rfl⟩
  refine ⟨path,fresh.recordable.of_boxes (sameLinks_editBox _ _ _) fun other => ?_,fun other => ?_,fun other => ?_⟩
  · exact ⟨(kept other).1,(kept other).2.1⟩
  · exact (kept other).2.2.1.trans (fresh.unbroken other)
  · exact (kept other).2.2.2.trans (fresh.uncached other)

end Forest

theorem Box.replayed_eq {b : Box} (unbroken : b.flags.isBreak = false) (uncached : b.contentSize = .both 0) : b.replayed = b := by
  have flags : { b.flags with isBreak := false } = b.flags := by
    rw [← unbroken]
  exact congrArg₂ (fun flags content => { b with flags := flags, contentSize := content }) flags uncached.symm

theorem Snapshot.WellFormed.named {s : Snapshot} (formed : s.WellFormed) {key : Key} (inside : key.index < s.nodes.length) :
    key ≠ .reserved ∧ ∃ node ∈ s.nodes, node.handle = key := by
  have listed : some key ∈ s.nodes.map Node.key? :=
    formed.keys.mem_iff.mpr (List.mem_map.mpr ⟨key.index,List.mem_range.mpr inside,rfl⟩)
  obtain ⟨node,member,named⟩ := List.mem_map.mp listed
  obtain ⟨same,valid⟩ := Key.valid?_eq_some.mp named
  exact ⟨same ▸ valid,node,member,same⟩

namespace Forest
variable {f g : Forest} {key : Key} {s : Snapshot}

theorem Fresh.of_restore (done : s.restore = .ok f) : f.Fresh := by
  have formed := Snapshot.wellFormed_of_restore done
  have describes := Snapshot.describes_of_restore done
  have told : ∀ {key}, f.Contains key → ∃ node ∈ s.nodes, node.handle = key ∧ node.Restored f := by
    intro key present
    have inside : key.index < s.nodes.length := describes.size ▸ present
    obtain ⟨_,node,member,same⟩ := formed.named inside
    exact ⟨node,member,same,describes.controls node member⟩
  have marks : ∀ key, (f.box key).flags.isBreak = false ∧ (f.box key).contentSize = .both 0 := by
    intro key
    by_cases present : f.Contains key
    · obtain ⟨node,_,rfl,restored⟩ := told present
      refine ⟨?_,restored.contentSize⟩
      rw [restored.box_eq]
      change (node.contained .new).flags.isBreak = false
      unfold Node.contained
      split <;> rfl
    · simp only [Forest.box,controls_of_missing present]
      exact ⟨rfl,rfl⟩
  refine ⟨Snapshot.restore_leads s f done,⟨?_,?_,?_,?_⟩,fun key => (marks key).1,fun key => (marks key).2⟩
  · intro key present
    obtain ⟨node,member,rfl,restored⟩ := told present
    rw [← ContainerFlags.ofWord_toWord (f.box node.handle).container,restored.container]
    exact (formed.words node member).container
  · intro key present
    obtain ⟨node,member,rfl,restored⟩ := told present
    rw [restored.box_eq]
    exact (formed.words node member).layout
  · intro key under
    obtain ⟨node,member,rfl,restored⟩ := told (contains_of_parent under)
    exact (formed.parents node member _ (restored.parent.symm.trans under)).2.2 rfl
  · by_contra! larger
    rw [describes.size] at larger
    exact (formed.named larger).1 rfl

theorem Fresh.content_update (fresh : f.Fresh) (key : Key) (axis : Axis) (fixed : 0 < (f.update.box key).fixedSize.get axis) :
    (f.update.box key).contentSize.get axis = 0 := by
  have kept := box_update_kept f key
  rw [← kept.inputs.fixedSize] at fixed
  rw [← kept.content axis fixed,fresh.uncached]
  cases axis <;> rfl

theorem Fresh.box_reloaded (fresh : f.Fresh) (again : g.Fresh) (reloads : f.update.Reloads g) (key : Key) :
    g.update.box key = f.update.box key := by
  have here := fresh.reachable.linked
  have there := again.reachable.linked
  have same := sameLinks_update f
  by_cases attached : f.Attached key
  · have agree := reloads.agree_update (same.linked here) there (fun key _ axis fixed _ => fresh.content_update key axis fixed)
      (same.within_iff.mpr attached)
    rw [update_update here] at agree
    have kept : Box.SameKept (f.update.box key) (g.box key) := by
      rw [reloads.box]
      refine ⟨⟨rfl,rfl,rfl,rfl,rfl,rfl,rfl,rfl,fun axis fixed _ => ?_⟩,fun axis fixed => ?_⟩
      all_goals
        rw [fresh.content_update key axis fixed]
        cases axis <;> rfl
    exact (agree.eq (kept.trans (box_update_kept g key))).symm
  · have apart : ¬g.Attached key := by
      rwa [← there.mem_outline_root,reloads.outline_root (same.linked here) there,same.outline_eq,here.mem_outline_root]
    rw [box_update_outside there apart,reloads.box,box_update_outside here attached]
    exact Box.replayed_eq (fresh.unbroken key) (fresh.uncached key)

theorem Fresh.resaved (fresh : f.Fresh) :
    ∃ g, f.update.capture.restore = .ok g ∧ g.Fresh ∧ SameControls f.update g.update := by
  have path := fresh.reachable.update
  have recordable := fresh.recordable.update
  obtain ⟨g,done⟩ := (wellFormed_capture path recordable).restores
  have again : g.Fresh := .of_restore done
  have reloads := Reloads.of_describes path recordable (Snapshot.describes_of_restore done)
  have same := sameLinks_update g
  refine ⟨g,done,again,same.size_eq.trans reloads.size,fun key => ?_,fresh.box_reloaded again reloads,fun key => ?_,?_⟩
  · exact (tag_layOutAt ..).trans (reloads.tag key)
  · rw [same.links_eq,reloads.parent]
  · rw [same.outline_eq,reloads.outline_root path.linked again.reachable.linked]

end Forest
end BoxLayout
