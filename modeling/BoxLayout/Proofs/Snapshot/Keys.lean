import Mathlib.Data.List.Nodup
import Mathlib.Data.List.Perm.Subperm
import Mathlib.Data.Option.Basic
import BoxLayout.Snapshot.Restore

namespace BoxLayout

-- The keys of a snapshot are numbered through when none of them is stray.

theorem Key.valid?_eq_some {key named : Key} : key.valid? = some named ↔ key = named ∧ key ≠ .reserved := by
  unfold valid?
  split
  · rename_i reserved
    simp [reserved]
  · rename_i valid
    simp [valid]

def Node.key? (node : Node) : Option Key := node.handle.valid?
def Node.parent? (node : Node) : Option Key := (Key.ofWord node.parent).valid?

namespace Snapshot
variable {count : Nat} {seen : List Key} {nodes : List Node}

theorem strayKey?_eq_none : strayKey? count seen nodes = none ↔
    (∀ node ∈ nodes, node.handle ≠ .reserved ∧ node.handle.index < count ∧ node.handle ∉ seen) ∧
      (nodes.map Node.handle).Nodup := by
  induction nodes generalizing seen with
  | nil => simp [strayKey?]
  | cons node rest ih =>
      rw [strayKey?]
      split
      · rename_i stray
        refine ⟨nofun,fun fine => ?_⟩
        obtain ⟨valid,inside,fresh⟩ := fine.1 node List.mem_cons_self
        rcases stray with reserved | outside | again
        · exact absurd reserved valid
        · exact absurd inside (Nat.not_lt.mpr outside)
        · exact absurd again fresh
      · rename_i fine
        simp only [not_or,Nat.not_le] at fine
        rw [ih,List.map_cons,List.nodup_cons]
        constructor
        · rintro ⟨each,distinct⟩
          refine ⟨?_,?_,distinct⟩
          · intro other member
            rcases List.mem_cons.mp member with rfl | later
            · exact fine
            · obtain ⟨valid,inside,fresh⟩ := each other later
              exact ⟨valid,inside,fun old => fresh (List.mem_cons_of_mem _ old)⟩
          · intro again
            obtain ⟨other,later,same⟩ := List.mem_map.mp again
            exact (each other later).2.2 (same ▸ List.mem_cons_self)
        · rintro ⟨each,alone,distinct⟩
          refine ⟨fun other later => ?_,distinct⟩
          obtain ⟨valid,inside,fresh⟩ := each other (List.mem_cons_of_mem _ later)
          refine ⟨valid,inside,fun old => ?_⟩
          rcases List.mem_cons.mp old with same | old
          · exact alone (same ▸ List.mem_map_of_mem later)
          · exact fresh old

theorem strayKey?_perm : strayKey? nodes.length [] nodes = none ↔
    (nodes.map Node.key?).Perm ((List.range nodes.length).map fun index => some ⟨index⟩) := by
  rw [strayKey?_eq_none]
  have injective : Function.Injective fun index => some (Key.mk index) := by
    intro one two same
    cases same
    rfl
  constructor
  · rintro ⟨each,distinct⟩
    have keys : nodes.map Node.key? = (nodes.map Node.handle).map some := by
      rw [List.map_map]
      exact List.map_congr_left fun node member => Key.valid?_eq_some.mpr ⟨rfl,(each node member).1⟩
    have inside : nodes.map Node.key? ⊆ (List.range nodes.length).map fun index => some ⟨index⟩ := by
      rw [keys]
      intro key listed
      obtain ⟨_,there,rfl⟩ := List.mem_map.mp listed
      obtain ⟨node,member,rfl⟩ := List.mem_map.mp there
      exact List.mem_map.mpr ⟨node.handle.index,List.mem_range.mpr (each node member).2.1,rfl⟩
    have apart : (nodes.map Node.key?).Nodup := by
      rw [keys]
      exact distinct.map (Option.some_injective _)
    exact (List.subperm_of_subset apart inside).perm_of_length_le (by simp)
  · intro perm
    have apart : (nodes.map Node.key?).Nodup := perm.nodup_iff.mpr (List.nodup_range.map injective)
    constructor
    · intro node member
      have listed := perm.mem_iff.mp (List.mem_map_of_mem (f := Node.key?) member)
      obtain ⟨index,inside,named⟩ := List.mem_map.mp listed
      obtain ⟨same,valid⟩ := Key.valid?_eq_some.mp named.symm
      refine ⟨valid,?_,List.not_mem_nil⟩
      rw [same]
      exact List.mem_range.mp inside
    · have handles : nodes.map Node.key? = (nodes.map Node.handle).map Key.valid? := by
        rw [List.map_map]
        rfl
      rw [handles] at apart
      exact apart.of_map

end Snapshot
end BoxLayout
