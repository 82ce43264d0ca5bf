import BoxLayout.Proofs.Forest.Mirrored
import BoxLayout.Proofs.Layout.Columnless

namespace BoxLayout.Forest

-- Updates of two forests that hang together alike and have no wrapping column. Along
-- the first axis they come out the same, however the settings of the second differ.

variable {f g : Forest} {key : Key}

theorem columnless_boxesAt (linked : f.Linked) (columnless : ∀ key, f.Attached key → (f.box key).arrangement ≠ .columnWrap)
    (attached : f.Attached key) : ∀ b ∈ (f.boxesAt (f.outline key)).preorder, b.arrangement ≠ .columnWrap := by
  intro b member
  rw [boxesAt,Tree.preorder_map,List.mem_map] at member
  obtain ⟨other,listed,rfl⟩ := member
  have inside := (linked.mem_outline (linked.contains_attached attached) (linked.acyclic_attached attached)).mp listed
  exact columnless other (Within.trans attached inside)

theorem update_along (path : f.Reachable) (links : SameLinks f g)
    (columnless : ∀ key, f.Attached key → (f.box key).arrangement ≠ .columnWrap)
    (same : ∀ key, f.Attached key → (f.box key).inputsAlong .x = (g.box key).inputsAlong .x) (attached : f.Attached key) :
    Box.SameFound .x (f.update.box key) (g.update.box key) := by
  have here := path.linked
  have related : Tree.Related (fun a b => a.inputsAlong .x = b.inputsAlong .x) (f.boxesAt (f.outline .root))
      (g.boxesAt (f.outline .root)) :=
    Tree.Related.maps.mpr fun key listed => same key (here.mem_outline_root.mp listed)
  have found := Tree.layOut_along (columnless_boxesAt here columnless .self) related
  have one := boxesAt_update here
  have two := boxesAt_update (links.linked here)
  rw [links.outline_eq] at two
  rw [← one,← two] at found
  exact Tree.Related.maps.mp found key (here.mem_outline_root.mpr attached)

def level : Forest := after
  [.setContainerFlags .root (.ofWord 5),.setSize .root ⟨100,0⟩,.createChild .root,.setContainerFlags ⟨1⟩ (.ofWord 65),
    .setSize ⟨1⟩ ⟨60,10⟩,.createChild .root,.setMinimumSize ⟨2⟩ ⟨50,unset⟩,.setPadding ⟨2⟩ ⟨3,0,4,0⟩,.createChild ⟨2⟩,
    .setSize ⟨3⟩ ⟨20,5⟩]

def uneven : Forest := after
  [.setContainerFlags .root (.ofWord 261),.setSize .root ⟨100,30⟩,.createChild .root,.setContainerFlags ⟨1⟩ (.ofWord 321),
    .setSize ⟨1⟩ ⟨60,0⟩,.setMaximumSize ⟨1⟩ ⟨unset,4⟩,.createChild .root,.setMinimumSize ⟨2⟩ ⟨50,80⟩,
    .setPadding ⟨2⟩ ⟨3,1,4,2⟩,.setLayoutFlags ⟨2⟩ (.ofWord 12),.createChild ⟨2⟩,.setSize ⟨3⟩ ⟨20,7⟩,
    .setMargins ⟨3⟩ ⟨0,9,0,9⟩,.update]

theorem update_along_uneven : level.Reachable ∧ SameLinks level uneven ∧
    (∀ key, level.Attached key → (level.box key).arrangement ≠ .columnWrap) ∧
      (∀ key, level.Attached key → (level.box key).inputsAlong .x = (uneven.box key).inputsAlong .x) ∧
        (uneven.update.box ⟨2⟩).flags.isBreak = true ∧
          (uneven.update.box ⟨2⟩).extent .y ≠ (level.update.box ⟨2⟩).extent .y ∧
            Box.SameFound .x (level.update.box ⟨2⟩) (uneven.update.box ⟨2⟩) := by
  have path : level.Reachable := reachable_after _
  have path' : uneven.Reachable := reachable_after _
  have listed : ∀ key, level.Attached key → key ∈ level.keys := fun key attached =>
    mem_keys.mpr (path.linked.contains_attached attached)
  have links : SameLinks level uneven :=
    sameLinks_of_checked path.linked path'.linked (by decide +kernel) (by decide +kernel)
  have columnless : ∀ key ∈ level.keys, (level.box key).arrangement ≠ .columnWrap := by decide +kernel
  have same : ∀ key ∈ level.keys, (level.box key).inputsAlong .x = (uneven.box key).inputsAlong .x := by decide +kernel
  have plain := fun key attached => columnless key (listed key attached)
  have alike := fun key attached => same key (listed key attached)
  refine ⟨path,links,plain,alike,by decide +kernel,by decide +kernel,?_⟩
  exact update_along path links plain alike (.child (by decide +kernel) .self)

end BoxLayout.Forest
