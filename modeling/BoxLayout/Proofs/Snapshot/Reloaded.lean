import BoxLayout.Proofs.Forest.Determined
import BoxLayout.Proofs.Snapshot.Captured

namespace BoxLayout

-- What restoring a capture brings back, and what it does not.

namespace Snapshot
variable {s : Snapshot} {f : Forest}

theorem restored_iff : s.restore = .ok f ↔ s.version = snapshotVersion ∧ strayKey? s.nodes.length [] s.nodes = none ∧
    s.nodes ≠ [] ∧ (∀ node ∈ s.nodes, node.Worded) ∧
    s.nodes.foldlM Node.attach ((blank (s.nodes.length - 1)).putAll s.nodes) = .ok f := by
  rw [restore_ok]
  refine and_congr_right fun _ => and_congr_right fun numbered => and_congr_right fun _ => ?_
  simp only [Forest.settleAll_ok (contains_blank numbered),and_assoc]
  exact ⟨fun ⟨_,worded,same,done⟩ => ⟨worded,same ▸ done⟩,fun ⟨worded,done⟩ => ⟨_,worded,rfl,done⟩⟩

theorem WellFormed.restores (formed : s.WellFormed) : ∃ f, s.restore = .ok f := by
  have numbered := strayKey?_perm.mpr formed.keys
  have rooted := List.length_pos_iff.mp formed.rooted
  obtain ⟨f,done⟩ := (attach_settled numbered rooted).1.mpr formed.parents
  exact ⟨f,restored_iff.mpr ⟨formed.version,numbered,rooted,formed.words,done⟩⟩

theorem wellFormed_of_restore (done : s.restore = .ok f) : s.WellFormed := by
  obtain ⟨version,numbered,rooted,worded,attached⟩ := restored_iff.mp done
  exact ⟨version,strayKey?_perm.mp numbered,List.length_pos_iff.mpr rooted,worded,
    (attach_settled numbered rooted).1.mp ⟨f,attached⟩⟩

theorem describes_of_restore (done : s.restore = .ok f) : s.Describes f := by
  obtain ⟨_,numbered,rooted,_,attached⟩ := restored_iff.mp done
  exact (attach_settled numbered rooted).2 f attached

end Snapshot

theorem Node.Restored.box_eq {f : Forest} {node : Node} (restored : node.Restored f) :
    f.box node.handle = node.settled .new := by
  obtain ⟨container,flags,content⟩ := node.settled_new
  have container : (f.box node.handle).container = (node.settled .new).container := by
    rw [← ContainerFlags.ofWord_toWord (f.box node.handle).container,restored.container,← container,
      ContainerFlags.ofWord_toWord]
  have flags : (f.box node.handle).flags = (node.settled .new).flags := by
    rw [← LayoutFlags.ofWord_toWord (f.box node.handle).flags,restored.flags,← flags,LayoutFlags.ofWord_toWord]
  have fixedSize : (f.box node.handle).fixedSize = node.fixedSize.map Forest.fixedAt :=
    congrArg₂ PerAxis.mk (restored.fixedSize .x) (restored.fixedSize .y)
  rw [Box.mk.injEq]
  exact ⟨container,flags,restored.margins,restored.padding,fixedSize,restored.minimumSize,restored.maximumSize,
    restored.floatingPosition,restored.contentSize.trans content.symm,restored.rect⟩

namespace Forest
variable {f g : Forest} {key : Key}

theorem links_eq_of_children (here : f.Linked) (there : g.Linked) (size : g.size = f.size)
    (parent : (g.links key).parent = (f.links key).parent) (below : g.children key = f.children key)
    (beside : ∀ parent, (f.links key).parent = some parent → g.children parent = f.children parent) :
    g.links key = f.links key := by
  have ends : (g.links key).firstChild = (f.links key).firstChild ∧ (g.links key).lastChild = (f.links key).lastChild := by
    by_cases present : f.Contains key
    · have one := here.siblings_children present
      have two := there.siblings_children (show g.Contains key by simpa only [Contains,size] using present)
      rw [one.first_eq,one.last,two.first_eq,two.last,below]
      exact ⟨rfl,rfl⟩
    · rw [links_of_missing present,links_of_missing (show ¬g.Contains key by simpa only [Contains,size] using present)]
      exact ⟨rfl,rfl⟩
  have sides : (g.links key).previousSibling = (f.links key).previousSibling ∧
      (g.links key).nextSibling = (f.links key).nextSibling := by
    cases under : (f.links key).parent with
    | none =>
        obtain ⟨previous,next⟩ := here.free_alone key under
        obtain ⟨previous',next'⟩ := there.free_alone key (parent.trans under)
        rw [previous,next,previous',next']
        exact ⟨rfl,rfl⟩
    | some above =>
        have present : f.Contains above := here.named_present key above (.inl under)
        have one := here.siblings_children present
        have two := there.siblings_children (show g.Contains above by simpa only [Contains,size] using present)
        rw [beside above under] at two
        obtain ⟨before,after,cut⟩ := List.append_of_mem (here.mem_children.mpr under)
        rw [cut] at one two
        rw [one.previous_eq,one.next_eq,two.previous_eq,two.next_eq]
        exact ⟨rfl,rfl⟩
  rw [Links.mk.injEq]
  exact ⟨parent,ends.1,ends.2,sides.1,sides.2⟩

-- Everything but the order of siblings below unattached parents, the break markers
-- and the cached content sizes.
structure Reloads (f g : Forest) : Prop where
  size : g.size = f.size
  keyOf : ∀ key, g.keyOf key = f.keyOf key
  tag : ∀ key, g.tag key = f.tag key
  box : ∀ key, g.box key = (f.box key).replayed
  parent : ∀ key, (g.links key).parent = (f.links key).parent
  attached : ∀ key, f.Attached key → g.links key = f.links key ∧ g.children key = f.children key
  unparented : ∀ key, (f.links key).parent = none →
    (g.links key).previousSibling = (f.links key).previousSibling ∧ (g.links key).nextSibling = (f.links key).nextSibling
  siblings : ∀ key, (g.children key).Perm (f.children key)

theorem children_described (linked : f.Linked) (recordable : f.Recordable) (describes : f.capture.Describes g) (key : Key) :
    g.children key = f.capturedChildren key := by
  have listed : (f.captureOrder.filter fun other => (f.capturedNode other).parent? = some key) = f.capturedChildren key :=
    List.filter_congr fun other _ => by rw [recordable.parent_capturedNode linked]
  have named : ∀ other ∈ f.capturedChildren key, (f.capturedNode other).handle = other := fun other member =>
    recordable.handle_capturedNode ((mem_captureOrder linked).mp (List.mem_filter.mp member).1)
  rw [describes.children,nodes_capture,List.filter_map,List.map_map]
  refine (congrArg (List.map _) listed).trans ?_
  exact (List.map_congr_left named).trans (List.map_id' _)

theorem Reloads.of_describes (path : f.Reachable) (recordable : f.Recordable) (describes : f.capture.Describes g) :
    f.Reloads g := by
  have here := path.linked
  have there := describes.linked
  have size : g.size = f.size := by
    rw [describes.size,nodes_capture,List.length_map,length_captureOrder here]
  have missing : ∀ {key}, ¬f.Contains key → ¬g.Contains key := by
    intro key
    simp only [Contains,size]
    exact id
  have restored : ∀ {key}, f.Contains key → (f.capturedNode key).Restored g := fun {key} present =>
    describes.controls _ (List.mem_map_of_mem ((mem_captureOrder here).mpr present))
  have parent : ∀ key, (g.links key).parent = (f.links key).parent := by
    intro key
    by_cases present : f.Contains key
    · have told := (restored present).parent
      rwa [recordable.handle_capturedNode present,recordable.parent_capturedNode here] at told
    · rw [links_of_missing present,links_of_missing (missing present)]
  have children := children_described here recordable describes
  have below : ∀ {key}, f.Attached key → g.children key = f.children key := fun attached =>
    (children _).trans (capturedChildren_eq here attached)
  refine ⟨size,here.keyOf_eq there size,?_,?_,parent,?_,?_,?_⟩
  · intro key
    by_cases present : f.Contains key
    · have told := (restored present).tag
      rwa [recordable.handle_capturedNode present] at told
    · simp only [Forest.tag,controls_of_missing present,controls_of_missing (missing present)]
  · intro key
    by_cases present : f.Contains key
    · have told := (restored present).box_eq
      rwa [recordable.handle_capturedNode present,settled_capturedNode (path.coherent key)] at told
    · simp only [Forest.box,controls_of_missing present,controls_of_missing (missing present)]
      rfl
  · intro key attached
    refine ⟨links_eq_of_children here there size (parent key) (below attached) fun above under => ?_,below attached⟩
    exact below (here.attached_parent attached under)
  · intro key free
    obtain ⟨previous,next⟩ := here.free_alone key free
    obtain ⟨previous',next'⟩ := there.free_alone key ((parent key).trans free)
    exact ⟨previous'.trans previous.symm,next'.trans next.symm⟩
  · intro key
    rw [children]
    exact capturedChildren_perm here key

theorem Reloads.outline_root (reloads : f.Reloads g) (here : f.Linked) (there : g.Linked) : g.outline .root = f.outline .root := by
  have again : g.Outlines (f.outline .root) :=
    (outlines_root here).congr fun key member => (reloads.attached key (here.mem_outline_root.mp member)).2
  refine Outlines.unique (outlines_root there) again ?_
  rw [value_outline,value_outline]

theorem capture_eq (here : f.Linked) (there : g.Linked) (size : g.size = f.size) (outline : g.outline .root = f.outline .root)
    (node : ∀ key, g.capturedNode key = f.capturedNode key) : g.capture = f.capture := by
  have order : g.captureOrder = f.captureOrder := by
    unfold captureOrder keys
    rw [descendants_root here,descendants_root there,outline,size]
  unfold capture
  rw [order,List.map_congr_left fun key _ => node key]

theorem Reloads.capture_eq (reloads : f.Reloads g) (here : f.Linked) (there : g.Linked) : g.capture = f.capture := by
  refine Forest.capture_eq here there reloads.size (reloads.outline_root here there) fun key => ?_
  unfold capturedNode
  rw [reloads.box,reloads.parent,reloads.tag]
  rfl

theorem restore_capture (path : f.Reachable) (recordable : f.Recordable) :
    ∃ g, f.capture.restore = .ok g ∧ f.Reloads g ∧ g.capture = f.capture := by
  obtain ⟨g,done⟩ := (wellFormed_capture path recordable).restores
  have describes := Snapshot.describes_of_restore done
  have reloads := Reloads.of_describes path recordable describes
  exact ⟨g,done,reloads,reloads.capture_eq path.linked describes.linked⟩

def brokenAndLoose : Forest := after
  [.setContainerFlags .root (.ofWord 6),.setSize .root ⟨100,100⟩,.createChild .root,.setSize ⟨1⟩ ⟨20,60⟩,
    .createChild .root,.setSize ⟨2⟩ ⟨30,60⟩,.create,.create,.createChild ⟨3⟩,.insertAtEnd ⟨3⟩ ⟨4⟩,
    .insertAtEnd ⟨4⟩ ⟨3⟩,.update]

theorem restore_capture_brokenAndLoose :
    brokenAndLoose.Reachable ∧ brokenAndLoose.Recordable ∧ (brokenAndLoose.box ⟨2⟩).flags.isBreak = true ∧
      brokenAndLoose.children ⟨3⟩ = [⟨5⟩,⟨4⟩] ∧ brokenAndLoose.capturedChildren ⟨3⟩ = [⟨4⟩,⟨5⟩] ∧
      ∃ g, brokenAndLoose.capture.restore = .ok g ∧ (g.box ⟨2⟩).flags.isBreak = false ∧
        brokenAndLoose.Reloads g ∧ g.capture = brokenAndLoose.capture := by
  have path : brokenAndLoose.Reachable := reachable_after _
  have recordable : brokenAndLoose.Recordable := recordable_of_checked (by decide +kernel) (by decide +kernel)
  obtain ⟨g,done,reloads,again⟩ := restore_capture path recordable
  refine ⟨path,recordable,by decide +kernel,by decide +kernel,by decide +kernel,g,done,?_,reloads,again⟩
  rw [reloads.box]
  rfl

end Forest
end BoxLayout
