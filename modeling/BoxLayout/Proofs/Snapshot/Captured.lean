import BoxLayout.Snapshot.Capture
import BoxLayout.Proofs.Forest.Coherent
import BoxLayout.Proofs.Forest.Walked
import BoxLayout.Proofs.Snapshot.Accepted

namespace BoxLayout

-- What a capture holds: every control once, children of attached ones in sibling
-- order, and of each enough to be restored.

namespace Tree
variable {α : Type}

theorem values_sublist (trees : List (Tree α)) : (trees.map value).Sublist (trees.flatMap preorder) := by
  induction trees with
  | nil => exact .slnil
  | cons tree rest ih =>
      rw [List.map_cons,List.flatMap_cons]
      exact (List.singleton_sublist.mpr tree.value_mem_preorder).append ih

end Tree

namespace Key

theorem index_reserved : reserved.index = 2 ^ 32 - 1 := by decide

theorem ofWord_toWord {key : Key} (small : key.index ≤ reserved.index) : ofWord key.toWord = key := by
  obtain ⟨index⟩ := key
  rw [index_reserved] at small
  have bounded : index < 2 ^ 32 := by
    dsimp only at small
    omega
  exact congrArg mk ((BitVec.toNat_ofNat index 32).trans (Nat.mod_eq_of_lt bounded))

end Key

namespace Forest
variable {f g : Forest} {key parent : Key} {t : Tree Key}

theorem Outlines.children_sublist (outlines : f.Outlines t) (member : key ∈ t.preorder) :
    (f.children key).Sublist t.preorder := by
  induction outlines with
  | @node top trees values _ ih =>
      rw [Tree.preorder_node] at member ⊢
      rcases List.mem_cons.mp member with rfl | deeper
      · rw [← values]
        exact (Tree.values_sublist trees).cons _
      · obtain ⟨tree,listed,inside⟩ := List.mem_flatMap.mp deeper
        have under := List.sublist_flatten_of_mem (List.mem_map_of_mem (f := Tree.preorder) listed)
        exact ((ih tree listed inside).trans under).cons _

theorem Outlines.congr (outlines : f.Outlines t) (same : ∀ key ∈ t.preorder, g.children key = f.children key) :
    g.Outlines t := by
  induction outlines with
  | @node top trees values _ ih =>
      rw [Tree.preorder_node] at same
      refine .node (values.trans (same top List.mem_cons_self).symm) fun tree listed => ih tree listed fun key inside => ?_
      exact same key (List.mem_cons_of_mem _ (List.mem_flatMap.mpr ⟨tree,listed,inside⟩))

theorem nodup_keys (f : Forest) : f.keys.Nodup :=
  List.nodup_range.map fun _ _ same => congrArg Key.index same

theorem descendants_root (linked : f.Linked) : f.descendants .root = (f.outline .root).preorder :=
  descendants_eq linked (contains_root linked) (acyclic_root linked)

theorem mem_descendants_root (linked : f.Linked) : key ∈ f.descendants .root ↔ f.Attached key := by
  rw [descendants_root linked]
  exact linked.mem_outline_root

theorem nodup_descendants_root (linked : f.Linked) : (f.descendants .root).Nodup := by
  rw [descendants_root linked]
  exact nodup_outline linked (contains_root linked) (acyclic_root linked)

theorem children_sublist_root (linked : f.Linked) (attached : f.Attached key) :
    (f.children key).Sublist (f.descendants .root) := by
  rw [descendants_root linked]
  exact (outlines_root linked).children_sublist (linked.mem_outline_root.mpr attached)

theorem captureOrder_perm (linked : f.Linked) : f.captureOrder.Perm f.keys := by
  have distinct : f.captureOrder.Nodup := by
    refine (nodup_descendants_root linked).append (f.nodup_keys.filter _) ?_
    intro key attached rest
    simpa [attached] using (List.mem_filter.mp rest).2
  refine (List.perm_ext_iff_of_nodup distinct f.nodup_keys).mpr fun key => ?_
  simp only [captureOrder,List.mem_append,List.mem_filter,mem_descendants_root linked,mem_keys]
  constructor
  · rintro (attached | ⟨present,_⟩)
    · exact linked.contains_attached attached
    · exact present
  · intro present
    by_cases attached : f.Attached key
    · exact .inl attached
    · refine .inr ⟨present,?_⟩
      simpa [mem_descendants_root linked] using attached

theorem mem_captureOrder (linked : f.Linked) : key ∈ f.captureOrder ↔ f.Contains key :=
  (captureOrder_perm linked).mem_iff.trans mem_keys

theorem nodup_captureOrder (linked : f.Linked) : f.captureOrder.Nodup :=
  (captureOrder_perm linked).nodup_iff.mpr f.nodup_keys

theorem length_captureOrder (linked : f.Linked) : f.captureOrder.length = f.size := by
  rw [(captureOrder_perm linked).length_eq,keys,List.length_map,List.length_range]

def capturedChildren (f : Forest) (parent : Key) : List Key :=
  f.captureOrder.filter fun key => (f.links key).parent = some parent

theorem capturedChildren_perm (linked : f.Linked) (parent : Key) :
    (f.capturedChildren parent).Perm (f.children parent) := by
  refine (List.perm_ext_iff_of_nodup ((nodup_captureOrder linked).filter _) (linked.nodup_children parent)).mpr fun key => ?_
  simp only [List.mem_filter,mem_captureOrder linked,decide_eq_true_eq,linked.mem_children]
  exact ⟨And.right,fun under => ⟨contains_of_parent under,under⟩⟩

-- Below an attached parent that is the sibling order: the walk meets siblings in
-- their order, and each control is captured once.
theorem capturedChildren_eq (linked : f.Linked) (attached : f.Attached parent) :
    f.capturedChildren parent = f.children parent := by
  have sublist : (f.children parent).Sublist f.captureOrder :=
    (children_sublist_root linked attached).trans (List.sublist_append_left _ _)
  have kept := sublist.filter fun key => (f.links key).parent = some parent
  rw [List.filter_eq_self.mpr fun key member => decide_eq_true (linked.mem_children.mp member)] at kept
  exact (kept.eq_of_length (capturedChildren_perm linked parent).length_eq.symm).symm

structure Recordable (f : Forest) : Prop where
  container : ∀ key, f.Contains key → (f.box key).container.Defined
  flags : ∀ key, f.Contains key → (f.box key).flags.Defined
  apart : ∀ key, (f.links key).parent ≠ some key
  numbered : f.size ≤ Key.reserved.index

theorem recordable_of_checked (numbered : f.size ≤ Key.reserved.index)
    (checked : ∀ key ∈ f.keys, (f.box key).container.Defined ∧ (f.box key).flags.Defined ∧ (f.links key).parent ≠ some key) :
    f.Recordable where
  container key present := (checked key (mem_keys.mpr present)).1
  flags key present := (checked key (mem_keys.mpr present)).2.1
  apart key under := (checked key (mem_keys.mpr (contains_of_parent under))).2.2 under
  numbered := numbered

theorem Recordable.index_lt (recordable : f.Recordable) (present : f.Contains key) : key.index < Key.reserved.index :=
  Nat.lt_of_lt_of_le present recordable.numbered

theorem Recordable.not_reserved (recordable : f.Recordable) (present : f.Contains key) : key ≠ .reserved := by
  rintro rfl
  exact Nat.lt_irrefl _ (recordable.index_lt present)

theorem Recordable.handle_capturedNode (recordable : f.Recordable) (present : f.Contains key) :
    (f.capturedNode key).handle = key := Key.ofWord_toWord (Nat.le_of_lt (recordable.index_lt present))

theorem Recordable.parent_capturedNode (linked : f.Linked) (recordable : f.Recordable) (key : Key) :
    (f.capturedNode key).parent? = (f.links key).parent := by
  change (Key.ofWord (Key.ofLink (f.links key).parent).toWord).valid? = _
  cases under : (f.links key).parent with
  | none => rfl
  | some parent =>
      have present : f.Contains parent := linked.named_present key parent (.inl under)
      have small := recordable.index_lt present
      rw [Key.ofLink,Option.getD_some,Key.ofWord_toWord (Nat.le_of_lt small)]
      exact if_neg (recordable.not_reserved present)

end Forest

namespace Box

def replayed (b : Box) : Box := { b.withBreak false with contentSize := .both 0 }

end Box

namespace Forest
variable {f : Forest} {key : Key}

theorem worded_capturedNode (coherent : (f.box key).Coherent) (container : (f.box key).container.Defined)
    (flags : (f.box key).flags.Defined) : (f.capturedNode key).Worded where
  container := by
    change (ContainerFlags.ofWord (f.box key).container.toWord).Defined
    rwa [ContainerFlags.ofWord_toWord]
  directed := by
    change (f.box key).container.toWord = 0 ∨ (ContainerFlags.ofWord (f.box key).container.toWord).Directed
    rw [ContainerFlags.ofWord_toWord]
    refine coherent.container.imp_left fun unset => ?_
    rw [unset]
    exact ContainerFlags.toWord_ofWord 0
  layout := by
    change (LayoutFlags.ofWord (f.box key).flags.external.toWord).Defined
    rw [LayoutFlags.ofWord_toWord]
    exact flags

theorem settled_capturedNode (coherent : (f.box key).Coherent) : (f.capturedNode key).settled .new = (f.box key).replayed := by
  have container : ((f.capturedNode key).contained .new).container = (f.box key).container := by
    unfold Node.contained
    split
    · rename_i unset
      change (f.box key).container.toWord = 0 at unset
      rw [← ContainerFlags.ofWord_toWord (f.box key).container,unset]
      rfl
    · exact ContainerFlags.ofWord_toWord _
  have rest : ((f.capturedNode key).contained .new).flags = .empty ∧
      ((f.capturedNode key).contained .new).contentSize = .both 0 := by
    unfold Node.contained
    split <;> exact ⟨rfl,rfl⟩
  have layout : LayoutFlags.ofWord (f.capturedNode key).layoutFlags = (f.box key).flags.external :=
    LayoutFlags.ofWord_toWord _
  have flags : ({ (f.box key).flags.external.withMarkersOf .empty with
      fixed := (f.box key).fixedSize.map fun component => decide (0 < component) } : LayoutFlags) =
        { (f.box key).flags with isBreak := false } := by
    rw [← coherent.fixed]
    rfl
  unfold Node.settled Node.adjusted
  rw [container,rest.1,rest.2,layout]
  exact congrArg₂ (fun flags fixedSize => { f.box key with flags := flags, fixedSize := fixedSize, contentSize := .both 0 })
    flags coherent.fixedSize

theorem nodes_capture (f : Forest) : f.capture.nodes = f.captureOrder.map f.capturedNode := rfl

theorem wellFormed_capture (path : f.Reachable) (recordable : f.Recordable) : f.capture.WellFormed := by
  have linked := path.linked
  have length : f.capture.nodes.length = f.size := by
    rw [nodes_capture,List.length_map,length_captureOrder linked]
  have captured : ∀ node ∈ f.capture.nodes, ∃ key, f.Contains key ∧ f.capturedNode key = node := by
    intro node member
    obtain ⟨key,listed,same⟩ := List.mem_map.mp member
    exact ⟨key,(mem_captureOrder linked).mp listed,same⟩
  refine ⟨rfl,?_,?_,?_,?_⟩
  · have keys : f.capture.nodes.map Node.key? = f.captureOrder.map some := by
      rw [nodes_capture,List.map_map]
      refine List.map_congr_left fun key listed => ?_
      have present := (mem_captureOrder linked).mp listed
      change (f.capturedNode key).handle.valid? = some key
      rw [recordable.handle_capturedNode present]
      exact if_neg (recordable.not_reserved present)
    rw [keys,length]
    have order := (captureOrder_perm linked).map some
    rwa [Forest.keys,List.map_map] at order
  · rw [length]
    exact linked.root_present
  · intro node member
    obtain ⟨key,present,rfl⟩ := captured node member
    exact worded_capturedNode (path.coherent key) (recordable.container key present) (recordable.flags key present)
  · intro node member parent named
    obtain ⟨key,present,rfl⟩ := captured node member
    rw [recordable.parent_capturedNode linked] at named
    rw [length,recordable.handle_capturedNode present]
    refine ⟨linked.named_present key parent (.inl named),?_,?_⟩
    · rintro rfl
      rw [linked.root_free] at named
      cases named
    · rintro rfl
      exact recordable.apart _ named

end Forest
end BoxLayout
