import BoxLayout.Proofs.Forest.Links

namespace BoxLayout.Forest

-- Every insertion that succeeds is a splice into one sibling list.

variable {f g : Forest} {parent child anchor : Key}

theorem validate_ok {key found : Key} (checked : f.validate key = .ok found) : f.Contains key ∧ found = key := by
  unfold validate at checked
  split at checked
  · rename_i present
    cases checked
    exact ⟨present,rfl⟩
  · cases checked

theorem validate_of_contains {key : Key} (present : f.Contains key) : f.validate key = .ok key := by
  simp only [validate,if_pos present]

theorem find_ok {key : Key} {control : Control} (found : f.find key = .ok control) :
    f.Contains key ∧ f.links key = control.links := by
  unfold find at found
  split at found
  · rename_i at_key
    cases found
    exact ⟨(Array.getElem?_eq_some_iff.mp at_key).1,by simp only [links,at_key]⟩
  · cases found

theorem checkInsertable_ok {u : Unit} (checked : f.checkInsertable child = .ok u) :
    f.Contains child ∧ child ≠ .root ∧ (f.links child).parent = none := by
  obtain ⟨control,found,checked⟩ := Result.bind_ok.mp checked
  obtain ⟨present,links⟩ := find_ok found
  dsimp only at checked
  split at checked
  · cases checked
  · rename_i notRoot
    split at checked
    · cases checked
    · rename_i free
      exact ⟨present,notRoot,by rw [links]; simpa using free⟩

theorem checkAnchor_ok (checked : f.checkAnchor anchor child = .ok parent) :
    f.Contains anchor ∧ (f.links anchor).parent = some parent ∧ anchor ≠ child ∧
      f.Contains child ∧ child ≠ .root ∧ (f.links child).parent = none := by
  obtain ⟨_,found,checked⟩ := Result.bind_ok.mp checked
  obtain ⟨_,insertable,checked⟩ := Result.bind_ok.mp checked
  dsimp only at checked
  split at checked
  · cases checked
  · rename_i apart
    split at checked
    · rename_i under
      cases checked
      exact ⟨(validate_ok found).1,under,apart,checkInsertable_ok insertable⟩
    · cases checked

theorem cut_at_anchor (linked : f.Linked) (checked : f.checkAnchor anchor child = .ok parent) :
    ∃ before after, f.Siblings parent (before ++ anchor :: after) := by
  obtain ⟨present,under,_⟩ := checkAnchor_ok checked
  have parentThere : f.Contains parent := linked.named_present anchor parent (.inl under)
  obtain ⟨keys,siblings⟩ := linked.siblings parent parentThere
  obtain ⟨before,after,rfl⟩ := List.append_of_mem ((siblings.members anchor).mpr under)
  exact ⟨before,after,siblings⟩

theorem spliceable_of_anchor (linked : f.Linked) (checked : f.checkAnchor anchor child = .ok parent)
    {before after : List Key} (siblings : f.Siblings parent (before ++ after)) :
    f.Spliceable parent before after child := by
  obtain ⟨_,under,_,present,notRoot,free⟩ := checkAnchor_ok checked
  exact ⟨linked.named_present anchor parent (.inl under),present,notRoot,free,siblings⟩

theorem insertAfter_spliced (linked : f.Linked) (done : f.insertAfter anchor child = .ok g) :
    ∃ parent before after, f.Siblings parent (before ++ anchor :: after) ∧
      f.Spliceable parent (before ++ [anchor]) after child ∧
      g = f.spliced parent (before ++ [anchor]) after child := by
  obtain ⟨parent,checked,done⟩ := Result.bind_ok.mp done
  cases done
  obtain ⟨before,after,siblings⟩ := cut_at_anchor linked checked
  refine ⟨parent,before,after,siblings,?_,?_⟩
  · exact spliceable_of_anchor linked checked (by simpa using siblings)
  · rw [siblings.next_eq,spliced,List.getLast?_concat]

theorem insertBefore_spliced (linked : f.Linked) (done : f.insertBefore anchor child = .ok g) :
    ∃ parent before after, f.Siblings parent (before ++ anchor :: after) ∧
      f.Spliceable parent before (anchor :: after) child ∧
      g = f.spliced parent before (anchor :: after) child := by
  obtain ⟨parent,checked,done⟩ := Result.bind_ok.mp done
  cases done
  obtain ⟨before,after,siblings⟩ := cut_at_anchor linked checked
  refine ⟨parent,before,after,siblings,?_,?_⟩
  · exact spliceable_of_anchor linked checked siblings
  · rw [siblings.previous_eq,spliced,List.head?_cons]

theorem insertAtEnd_spliced (linked : f.Linked) (done : f.insertAtEnd parent child = .ok g) :
    ∃ keys, f.Spliceable parent keys [] child ∧ g = f.spliced parent keys [] child := by
  obtain ⟨_,found,done⟩ := Result.bind_ok.mp done
  obtain ⟨_,insertable,done⟩ := Result.bind_ok.mp done
  have parentThere := (validate_ok found).1
  obtain ⟨present,notRoot,free⟩ := checkInsertable_ok insertable
  obtain ⟨keys,siblings⟩ := linked.siblings parent parentThere
  dsimp only at done
  split at done
  · cases done
  · split at done
    · rename_i last lastAt
      obtain ⟨parent',before,after,siblings',ready,rfl⟩ := insertAfter_spliced linked done
      -- The last child hangs below this very parent, and nothing follows it.
      have member : last ∈ keys := List.mem_of_getLast? (siblings.last ▸ lastAt)
      have same : parent' = parent := siblings.parent_unique siblings' member (by simp)
      subst parent'
      have ended : after = [] := siblings'.nothing_after lastAt
      subst after
      exact ⟨before ++ [last],ready,rfl⟩
    · rename_i lastAt
      rw [siblings.last,List.getLast?_eq_none_iff] at lastAt
      subst keys
      cases done
      exact ⟨[],⟨parentThere,present,notRoot,free,siblings⟩,rfl⟩

theorem insertAtStart_spliced (linked : f.Linked) (done : f.insertAtStart parent child = .ok g) :
    ∃ keys, f.Spliceable parent [] keys child ∧ g = f.spliced parent [] keys child := by
  obtain ⟨_,found,done⟩ := Result.bind_ok.mp done
  obtain ⟨keys,siblings⟩ := linked.siblings parent (validate_ok found).1
  split at done
  · rename_i first firstAt
    obtain ⟨parent',before,after,siblings',ready,rfl⟩ := insertBefore_spliced linked done
    have member : first ∈ keys := List.mem_of_head? (siblings.first_eq ▸ firstAt)
    have same : parent' = parent := siblings.parent_unique siblings' member (by simp)
    subst parent'
    have begun : before = [] := siblings'.nothing_before firstAt
    subst before
    exact ⟨first :: after,ready,rfl⟩
  · rename_i firstAt
    rw [siblings.first_eq,List.head?_eq_none_iff] at firstAt
    subst keys
    obtain ⟨keys,ready,rfl⟩ := insertAtEnd_spliced linked done
    have none : keys = [] := by simpa using ready.siblings.unique siblings
    subst keys
    exact ⟨[],ready,rfl⟩

end BoxLayout.Forest
