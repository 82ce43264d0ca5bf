import BoxLayout.Proofs.Forest.KeptRuns
import BoxLayout.Proofs.Layout.Mirrored

namespace BoxLayout.Forest

-- Updates of two forests that hang together alike, the settings of the one being
-- those of the other with the axes exchanged.

variable {f g : Forest}

-- Sizes and places found before, and break markers, may be anything.
theorem update_mirrored (path : f.Reachable) (unwrapped : ∀ key, f.Attached key → (f.box key).container.wrap = false)
    (links : SameLinks f g) (exchanged : ∀ key, f.Attached key → Box.SameKept (f.box key).swap (g.box key)) :
    (∀ key, f.Attached key → g.update.box key = (f.update.box key).swap) ∧
      ∀ key, ¬f.Attached key → f.update.box key = f.box key ∧ g.update.box key = g.box key := by
  have here := path.linked
  have there := links.linked here
  constructor
  · intro key attached
    have one := boxesAt_update here
    have two := boxesAt_update there
    rw [links.outline_eq] at two
    have plain : ∀ b ∈ (f.boxesAt (f.outline .root)).preorder, b.container.wrap = false := by
      intro b member
      rw [boxesAt,Tree.preorder_map,List.mem_map] at member
      obtain ⟨key,listed,rfl⟩ := member
      exact unwrapped key (here.mem_outline_root.mp listed)
    have related : Tree.Related (fun a b => Box.SameKept a.swap b) (f.boxesAt (f.outline .root))
        (g.boxesAt (f.outline .root)) :=
      Tree.Related.maps.mpr fun key listed => exchanged key (here.mem_outline_root.mp listed)
    have turned := Tree.layOut_swap plain related
    rw [← two,← one,boxesAt,boxesAt,Tree.map_map] at turned
    have rows : Tree.Related Eq ((f.outline .root).map g.update.box) ((f.outline .root).map (Box.swap ∘ f.update.box)) := by
      rw [turned]
      exact .refl (fun _ => rfl) _
    exact Tree.Related.maps.mp rows key (here.mem_outline_root.mpr attached)
  · intro key outside
    exact ⟨box_update_outside here outside,box_update_outside there fun inside => outside (links.within_iff.mp inside)⟩

theorem sameLinks_of_checked (here : f.Linked) (there : g.Linked) (size : g.size = f.size)
    (checked : ∀ key ∈ f.keys, g.links key = f.links key) : SameLinks f g := by
  refine ⟨size,fun key => ?_,here.keyOf_eq there size⟩
  by_cases present : f.Contains key
  · exact checked key (mem_keys.mpr present)
  · have missing : ¬g.Contains key := by simpa only [Contains,size] using present
    rw [links_of_missing present,links_of_missing missing]

def sideways : Forest := after
  [.setContainerFlags .root (.ofWord 33),.setSize .root ⟨100,20⟩,.createChild .root,.setContainerFlags ⟨1⟩ (.ofWord 66),
    .setPadding ⟨1⟩ ⟨4,1,3,2⟩,.createChild ⟨1⟩,.setSize ⟨2⟩ ⟨60,8⟩,.setMargins ⟨2⟩ ⟨1,2,3,4⟩,.createChild .root,
    .setLayoutFlags ⟨3⟩ (.ofWord 3),.setMaximumSize ⟨3⟩ ⟨20,unset⟩,.createChild .root,.setLayoutFlags ⟨4⟩ (.ofWord 1036),
    .setFloatingPosition ⟨4⟩ ⟨90,5⟩,.setSize ⟨4⟩ ⟨15,0⟩]

def upright : Forest := after
  [.setContainerFlags .root (.ofWord 34),.setSize .root ⟨20,100⟩,.createChild .root,.setContainerFlags ⟨1⟩ (.ofWord 257),
    .setPadding ⟨1⟩ ⟨1,4,2,3⟩,.createChild ⟨1⟩,.setSize ⟨2⟩ ⟨8,60⟩,.setMargins ⟨2⟩ ⟨2,1,4,3⟩,.createChild .root,
    .setLayoutFlags ⟨3⟩ (.ofWord 12),.setMaximumSize ⟨3⟩ ⟨unset,20⟩,.createChild .root,.setLayoutFlags ⟨4⟩ (.ofWord 1027),
    .setFloatingPosition ⟨4⟩ ⟨5,90⟩,.setSize ⟨4⟩ ⟨0,15⟩]

theorem update_mirrored_upright : sideways.Reachable ∧
    (∀ key, sideways.Attached key → (sideways.box key).container.wrap = false) ∧ SameLinks sideways upright ∧
      (∀ key, sideways.Attached key → Box.SameKept (sideways.box key).swap (upright.box key)) ∧
        upright.update.box ⟨4⟩ = (sideways.update.box ⟨4⟩).swap ∧ (upright.update.box ⟨4⟩).rect = .ofNumbers 5 90 15 10 := by
  have path : sideways.Reachable := reachable_after _
  have path' : upright.Reachable := reachable_after _
  have listed : ∀ key, sideways.Attached key → key ∈ sideways.keys := fun key attached =>
    mem_keys.mpr (attached.contains (contains_root path.linked))
  have unwrapped : ∀ key ∈ sideways.keys, (sideways.box key).container.wrap = false := by decide +kernel
  have links : SameLinks sideways upright :=
    sameLinks_of_checked path.linked path'.linked (by decide +kernel) (by decide +kernel)
  have turned : ∀ key ∈ sideways.keys, (sideways.box key).swap = upright.box key := by decide +kernel
  have exchanged : ∀ key, sideways.Attached key → Box.SameKept (sideways.box key).swap (upright.box key) := by
    intro key attached
    rw [turned key (listed key attached)]
    exact .refl _
  have plain := fun key attached => unwrapped key (listed key attached)
  refine ⟨path,plain,links,exchanged,?_,by decide +kernel⟩
  exact (update_mirrored path plain links exchanged).1 ⟨4⟩ (.child (by decide +kernel) .self)

end BoxLayout.Forest
