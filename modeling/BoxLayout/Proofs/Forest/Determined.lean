import Mathlib.Data.Set.Function
import Mathlib.Data.List.Perm.Basic
import BoxLayout.Proofs.Forest.Written

namespace BoxLayout.Forest

-- Layout is a function of the attached tree: key numbers, controls that hang
-- nowhere and everything earlier layouts wrote make no difference to an update.

-- The controls below the one root, renamed to those below the other. Content sizes
-- belong to the inputs only where Box.SameInputs says so.
structure Corresponding (f g : Forest) (renamed : Key → Key) : Prop where
  root : renamed .root = .root
  bijective : Set.BijOn renamed {key | f.Attached key} {key | g.Attached key}
  parent : ∀ key, f.Attached key → (g.links (renamed key)).parent = (f.links key).parent.map renamed
  next : ∀ key, f.Attached key → (g.links (renamed key)).nextSibling = (f.links key).nextSibling.map renamed
  inputs : ∀ key, f.Attached key → Box.SameInputs (f.box key) (g.box (renamed key))

variable {f g : Forest} {renamed : Key → Key} {key child parent : Key} {t : Tree Key}

namespace Corresponding
variable (same : Corresponding f g renamed) (here : f.Linked) (there : g.Linked)
include same here there

theorem mem_children (attached : f.Attached parent) :
    key ∈ g.children (renamed parent) ↔ key ∈ (f.children parent).map renamed := by
  rw [there.mem_children,List.mem_map]
  constructor
  · intro under
    have inside : g.Attached key := .child under (same.bijective.mapsTo attached)
    obtain ⟨child,childAttached,rfl⟩ := same.bijective.surjOn inside
    rw [same.parent child childAttached,Option.map_eq_some_iff] at under
    obtain ⟨above,found,moved⟩ := under
    have equal := same.bijective.injOn (here.attached_parent childAttached found) attached moved
    exact ⟨child,here.mem_children.mpr (equal ▸ found),rfl⟩
  · rintro ⟨child,member,rfl⟩
    have under := here.mem_children.mp member
    rw [same.parent child (.child under attached),under,Option.map_some]

-- Both lists hold the same keys, and the shorter way through either is the other.
theorem children_eq (attached : f.Attached parent) : g.children (renamed parent) = (f.children parent).map renamed := by
  have inside : ∀ child ∈ f.children parent, f.Attached child := fun child member =>
    .child (here.mem_children.mp member) attached
  have distinct : ((f.children parent).map renamed).Nodup :=
    List.Nodup.map_on (fun a aListed b bListed equal => same.bijective.injOn (inside a aListed) (inside b bListed) equal)
      (here.nodup_children parent)
  have perm := (List.perm_ext_iff_of_nodup (there.nodup_children (renamed parent)) distinct).mpr fun key =>
    same.mem_children here there attached
  have present : f.Contains parent := Within.contains attached (contains_root here)
  have present' : g.Contains (renamed parent) := Within.contains (same.bijective.mapsTo attached) (contains_root there)
  have forward := (here.siblings_children present).forward
  have forward' := (there.siblings_children present').forward
  cases found : g.children (renamed parent) with
  | nil =>
      rw [found] at perm
      exact perm.nil_eq
  | cons first rest =>
      rw [found] at perm forward'
      have listed : first ∈ (f.children parent).map renamed := perm.mem_iff.mp List.mem_cons_self
      obtain ⟨child,member,rfl⟩ := List.mem_map.mp listed
      obtain ⟨before,after,split⟩ := List.mem_iff_append.mp member
      rw [split] at forward inside perm
      obtain ⟨middle,_,onwards⟩ := Chain.append_iff.mp forward
      have moved := onwards.map (fun key => (g.links key).nextSibling) fun key listed =>
        same.next key (inside key (List.mem_append_right _ listed))
      rw [onwards.start_eq] at moved
      rw [forward'.start_eq] at forward'
      have equal := forward'.unique moved
      have none : before = [] := by
        have lengths := perm.length_eq
        rw [equal,List.map_append,List.length_append] at lengths
        simpa using lengths
      rw [split,none,equal,List.nil_append]

theorem outlines_map (outlines : f.Outlines t) (attached : f.Attached t.value) : g.Outlines (t.map renamed) := by
  induction outlines with
  | @node top trees listed below ih =>
      change f.Attached top at attached
      rw [Tree.map_node]
      refine .node ?_ ?_
      · rw [same.children_eq here there attached,← listed,List.map_map,List.map_map]
        exact List.map_congr_left fun tree _ => Tree.value_map renamed tree
      · intro other member
        obtain ⟨tree,inside,rfl⟩ := List.mem_map.mp member
        have listed : tree.value ∈ f.children top := listed ▸ List.mem_map_of_mem inside
        exact ih tree inside (.child (here.mem_children.mp listed) attached)

theorem outline_eq : g.outline .root = (f.outline .root).map renamed := by
  refine (outlines_root there).unique (same.outlines_map here there (outlines_root here) ?_) ?_
  · rw [value_outline]
    exact .self
  · rw [Tree.value_map,value_outline,value_outline,same.root]

end Corresponding

-- Whatever came before in either forest, one update puts corresponding controls
-- into the same rectangle, with the same break marker and the same content size
-- unless a fixed size made it irrelevant.
theorem update_determined (here : f.Reachable) (there : g.Reachable) (same : Corresponding f g renamed)
    (attached : f.Attached key) :
    (g.update.box (renamed key)).rect = (f.update.box key).rect ∧
      (g.update.box (renamed key)).flags.isBreak = (f.update.box key).flags.isBreak ∧
      ∀ axis, ¬0 < (f.box key).fixedSize.get axis →
        (g.update.box (renamed key)).contentSize.get axis = (f.update.box key).contentSize.get axis := by
  have laidOut := boxesAt_layOutAt here.linked (contains_root here.linked) (acyclic_root here.linked) none
  have laidOut' := boxesAt_layOutAt there.linked (contains_root there.linked) (acyclic_root there.linked) none
  rw [same.outline_eq here.linked there.linked,boxesAt,boxesAt,Tree.map_map,Tree.map_map] at laidOut'
  have inputs : Tree.Related Box.SameInputs ((f.outline .root).map f.box) ((f.outline .root).map (g.box ∘ renamed)) :=
    Tree.Related.maps.mpr fun key member => same.inputs key (here.linked.mem_outline_root.mp member)
  have standing : Tree.Standing none ((f.outline .root).map f.box) ((f.outline .root).map (g.box ∘ renamed)) :=
    fun held => absurd rfl held.1
  have agree := Tree.agree_layOut inputs standing
  rw [← laidOut',← boxesAt,← laidOut] at agree
  have agreed := Tree.Related.maps.mp agree key (here.linked.mem_outline_root.mpr attached)
  refine ⟨?_,agreed.isBreak.symm,?_⟩
  · have position := PerAxis.eq_of_get fun axis => agreed.start axis trivial
    have size := PerAxis.eq_of_get fun axis => agreed.extent axis trivial
    exact (congrArg₂ Rect.mk position size).symm
  · intro axis flexible
    have kept := layOutAt_kept here.linked (contains_root here.linked) (acyclic_root here.linked) none attached
    rw [kept.inputs.fixedSize] at flexible
    exact (agreed.content axis trivial flexible).symm

def inOrder : Forest := after [.createChild .root,.createChild .root,.setMinimumSize ⟨1⟩ ⟨40,10⟩]

def exchanged : Forest := after
  [.create,.createChild .root,.insertAtEnd .root ⟨1⟩,.create,.setMinimumSize ⟨2⟩ ⟨40,10⟩,.setRect ⟨2⟩ (.ofNumbers 1 2 3 4)]

def exchange (key : Key) : Key := if key = ⟨1⟩ then ⟨2⟩ else if key = ⟨2⟩ then ⟨1⟩ else key

theorem attached_inOrder : inOrder.Attached key ↔ key = .root ∨ key = ⟨1⟩ ∨ key = ⟨2⟩ := by
  constructor
  · intro attached
    have inside : key.index < 3 := attached.contains (contains_root (reachable_after _).linked)
    obtain ⟨index⟩ := key
    change index < 3 at inside
    simp only [Key.root,Key.mk.injEq]
    omega
  · rintro (rfl | rfl | rfl)
    · exact .self
    · exact .child (by decide) .self
    · exact .child (by decide) .self

theorem attached_exchanged : exchanged.Attached key ↔ key = .root ∨ key = ⟨1⟩ ∨ key = ⟨2⟩ := by
  constructor
  · intro attached
    have inside : key.index < 4 := attached.contains (contains_root (reachable_after _).linked)
    have loose : key ≠ ⟨3⟩ := by
      rintro rfl
      cases attached with
      | child under _ => cases under
    obtain ⟨index⟩ := key
    change index < 4 at inside
    simp only [Key.root,Key.mk.injEq,ne_eq] at loose ⊢
    omega
  · rintro (rfl | rfl | rfl)
    · exact .self
    · exact .child (by decide) .self
    · exact .child (by decide) .self

theorem corresponding_exchanged : Corresponding inOrder exchanged exchange where
  root := rfl
  bijective := by
    have back : ∀ key, exchange (exchange key) = key := by
      intro key
      unfold exchange
      split_ifs <;> simp_all
    have kept : ∀ {key}, inOrder.Attached key → exchanged.Attached (exchange key) := by
      intro key attached
      rcases attached_inOrder.mp attached with rfl | rfl | rfl
      · exact attached_exchanged.mpr (.inl rfl)
      · exact attached_exchanged.mpr (.inr (.inr rfl))
      · exact attached_exchanged.mpr (.inr (.inl rfl))
    refine ⟨fun _ => kept,fun one _ two _ same => by rw [← back one,same,back],fun key attached => ?_⟩
    rcases attached_exchanged.mp attached with rfl | rfl | rfl
    · exact ⟨.root,attached_inOrder.mpr (.inl rfl),rfl⟩
    · exact ⟨⟨2⟩,attached_inOrder.mpr (.inr (.inr rfl)),rfl⟩
    · exact ⟨⟨1⟩,attached_inOrder.mpr (.inr (.inl rfl)),rfl⟩
  parent key attached := by rcases attached_inOrder.mp attached with rfl | rfl | rfl <;> rfl
  next key attached := by rcases attached_inOrder.mp attached with rfl | rfl | rfl <;> rfl
  inputs key attached := by
    have unfixed : ∀ axis, ¬0 < (inOrder.box key).fixedSize.get axis := by
      intro axis
      rcases attached_inOrder.mp attached with rfl | rfl | rfl <;> cases axis <;> decide
    have same : inOrder.box key = { exchanged.box (exchange key) with rect := .zero } := by
      rcases attached_inOrder.mp attached with rfl | rfl | rfl <;> decide
    rw [same] at unfixed ⊢
    exact ⟨rfl,rfl,rfl,rfl,rfl,rfl,rfl,rfl,fun axis fixed => absurd fixed (unfixed axis)⟩

theorem update_exchanged :
    inOrder.Reachable ∧ exchanged.Reachable ∧ Corresponding inOrder exchanged exchange ∧ inOrder.Attached ⟨1⟩ ∧
      (exchanged.update.box ⟨2⟩).rect = (inOrder.update.box ⟨1⟩).rect ∧
      (exchanged.update.box ⟨2⟩).flags.isBreak = (inOrder.update.box ⟨1⟩).flags.isBreak ∧
      ∀ axis, (exchanged.update.box ⟨2⟩).contentSize.get axis = (inOrder.update.box ⟨1⟩).contentSize.get axis := by
  have attached : inOrder.Attached ⟨1⟩ := attached_inOrder.mpr (.inr (.inl rfl))
  have unfixed : ∀ axis, ¬0 < (inOrder.box ⟨1⟩).fixedSize.get axis := by
    intro axis
    cases axis <;> decide
  obtain ⟨rect,broken,content⟩ :=
    update_determined (reachable_after _) (reachable_after _) corresponding_exchanged attached
  exact ⟨reachable_after _,reachable_after _,corresponding_exchanged,attached,rect,broken,
    fun axis => content axis (unfixed axis)⟩

end BoxLayout.Forest
