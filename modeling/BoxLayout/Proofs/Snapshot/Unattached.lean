import BoxLayout.Proofs.Snapshot.Reloaded

namespace BoxLayout.Forest

-- Below a parent outside the tree a capture keeps who the children are, not how they
-- stood: they are captured by key and come back in that order.

variable {f g : Forest} {parent : Key}

def Ascending (keys : List Key) : Prop := keys.Pairwise fun a b => a.index < b.index

instance (keys : List Key) : Decidable (Ascending keys) := by unfold Ascending; infer_instance

theorem ascending_keys (f : Forest) : Ascending f.keys := List.pairwise_map.mpr List.pairwise_lt_range

theorem Ascending.eq {keys others : List Key} (ascending : Ascending keys) (ascending' : Ascending others)
    (perm : keys.Perm others) : keys = others := by
  refine perm.eq_of_pairwise ?_ ascending ascending'
  intro a b _ _ less greater
  exact absurd greater (Nat.lt_asymm less)

-- The walk over the tree meets none of them, so they are met among the other keys.
theorem capturedChildren_unattached (linked : f.Linked) (loose : ¬f.Attached parent) :
    f.capturedChildren parent = f.keys.filter fun key => (f.links key).parent = some parent := by
  have outside : ∀ key, (f.links key).parent = some parent → ¬f.Attached key := fun key under attached =>
    loose (linked.attached_parent attached under)
  unfold capturedChildren captureOrder
  dsimp only
  rw [List.filter_append,List.filter_filter]
  have walked : ((f.descendants .root).filter fun key => (f.links key).parent = some parent) = [] := by
    rw [List.filter_eq_nil_iff]
    intro key member under
    exact outside key (of_decide_eq_true under) ((mem_descendants_root linked).mp member)
  rw [walked,List.nil_append]
  refine List.filter_congr fun key _ => ?_
  by_cases under : (f.links key).parent = some parent
  · simpa [under,mem_descendants_root linked] using outside key under
  · simp [under]

theorem unattached_of_free (free : (f.links parent).parent = none) (apart : parent ≠ .root) : ¬f.Attached parent := by
  intro attached
  cases attached with
  | self => exact apart rfl
  | child under _ =>
      rw [free] at under
      cases under

theorem restore_unattached (path : f.Reachable) (recordable : f.Recordable) :
    ∃ g, f.capture.restore = .ok g ∧ ∀ parent, ¬f.Attached parent →
      (g.children parent).Perm (f.children parent) ∧ Ascending (g.children parent) ∧
        (g.children parent = f.children parent ↔ Ascending (f.children parent)) := by
  obtain ⟨g,done⟩ := (wellFormed_capture path recordable).restores
  have describes := Snapshot.describes_of_restore done
  refine ⟨g,done,fun parent loose => ?_⟩
  have children := children_described path.linked recordable describes parent
  have perm : (g.children parent).Perm (f.children parent) := by
    rw [children]
    exact capturedChildren_perm path.linked parent
  have ascending : Ascending (g.children parent) := by
    rw [children,capturedChildren_unattached path.linked loose]
    exact f.ascending_keys.filter _
  refine ⟨perm,ascending,fun same => same ▸ ascending,fun kept => ascending.eq kept perm⟩

def looseFamilies : Forest := after
  [.createChild .root,.create,.create,.createChild ⟨2⟩,.create,.insertAtStart ⟨2⟩ ⟨5⟩,.createChild ⟨3⟩,.createChild ⟨3⟩]

theorem restore_unattached_looseFamilies :
    looseFamilies.Reachable ∧ looseFamilies.Recordable ∧ looseFamilies.children ⟨2⟩ = [⟨5⟩,⟨4⟩] ∧
      ∃ g, looseFamilies.capture.restore = .ok g ∧ g.children ⟨2⟩ = [⟨4⟩,⟨5⟩] ∧ g.children ⟨3⟩ = [⟨6⟩,⟨7⟩] := by
  have path : looseFamilies.Reachable := reachable_after _
  have recordable : looseFamilies.Recordable := recordable_of_checked (by decide +kernel) (by decide +kernel)
  have second : ¬looseFamilies.Attached ⟨2⟩ := unattached_of_free (by decide +kernel) (by decide)
  have third : ¬looseFamilies.Attached ⟨3⟩ := unattached_of_free (by decide +kernel) (by decide)
  obtain ⟨g,done,below⟩ := restore_unattached path recordable
  have turned : looseFamilies.children ⟨2⟩ = [⟨5⟩,⟨4⟩] := by decide +kernel
  have byKey : looseFamilies.children ⟨3⟩ = [⟨6⟩,⟨7⟩] := by decide +kernel
  obtain ⟨perm,ascending,_⟩ := below ⟨2⟩ second
  obtain ⟨_,_,kept⟩ := below ⟨3⟩ third
  refine ⟨path,recordable,turned,g,done,?_,?_⟩
  · refine ascending.eq (by decide) (perm.trans ?_)
    rw [turned]
    exact .swap ..
  · rw [byKey] at kept
    exact kept.mpr (by decide)

theorem restore_unattached_fails :
    ¬∀ f : Forest, f.Reachable → f.Recordable → ∃ g, f.capture.restore = .ok g ∧
      ∀ parent, ¬f.Attached parent → g.children parent = f.children parent := by
  intro always
  have recordable : looseFamilies.Recordable := recordable_of_checked (by decide +kernel) (by decide +kernel)
  obtain ⟨g,done,same⟩ := always looseFamilies (reachable_after _) recordable
  have loose : ¬looseFamilies.Attached ⟨2⟩ := unattached_of_free (by decide +kernel) (by decide)
  have before : looseFamilies.children ⟨2⟩ = [⟨5⟩,⟨4⟩] := by decide +kernel
  have after : looseFamilies.capture.restore.map (fun g => g.children ⟨2⟩) = .ok [⟨4⟩,⟨5⟩] := by decide +kernel
  rw [done] at after
  have byKey : g.children ⟨2⟩ = [⟨4⟩,⟨5⟩] := Except.ok.inj after
  rw [same ⟨2⟩ loose,before] at byKey
  exact absurd byKey (by decide)

end BoxLayout.Forest
