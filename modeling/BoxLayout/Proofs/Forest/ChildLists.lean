import Mathlib.Logic.Function.Basic
import BoxLayout.Proofs.Forest.Refusals
import BoxLayout.Proofs.Forest.Subtree

namespace BoxLayout

-- Insertions are edits of lists: the links of all the controls hold as many lists of children
-- as there are controls, and an insertion puts one key into one of them.

def beside (past : Nat) (anchor child : Key) (keys : List Key) : List Key :=
  if anchor ∈ keys then keys.insertIdx (keys.idxOf anchor + past) child else keys

theorem insertIdx_between (first second : List Key) (child : Key) :
    (first ++ second).insertIdx first.length child = first ++ child :: second := by
  induction first with
  | nil => rfl
  | cons key rest ih => exact congrArg (key :: ·) ih

section Beside
variable {first second : List Key} {anchor child : Key} (fresh : anchor ∉ first)
include fresh

theorem beside_cut (past : Nat) :
    beside past anchor child (first ++ anchor :: second) = (first ++ anchor :: second).insertIdx (first.length + past) child := by
  have found : (first ++ anchor :: second).idxOf anchor = first.length := by
    rw [List.idxOf_append_of_notMem fresh,List.idxOf_cons_self,Nat.add_zero]
  rw [beside,if_pos (by simp),found]

theorem beside_before : beside 0 anchor child (first ++ anchor :: second) = first ++ child :: anchor :: second := by
  rw [beside_cut fresh,Nat.add_zero,insertIdx_between]

theorem beside_after : beside 1 anchor child (first ++ anchor :: second) = first ++ [anchor] ++ child :: second := by
  have between := insertIdx_between (first ++ [anchor]) second child
  rwa [List.length_append,List.append_assoc,List.singleton_append,List.length_singleton,← beside_cut fresh] at between

end Beside

structure ChildLists where
  count : Nat
  below : Key → List Key

namespace ChildLists

def edit (lists : ChildLists) (parent : Key) (change : List Key → List Key) : ChildLists :=
  { lists with below := Function.update lists.below parent (change (lists.below parent)) }

-- What each call does to them. All calls but these only look at the lists.
def perform (lists : ChildLists) : Command → ChildLists
  | .create => { lists with count := lists.count + 1 }
  | .createChild parent => { lists.edit parent (· ++ [⟨lists.count⟩]) with count := lists.count + 1 }
  | .clear => ⟨1,fun _ => []⟩
  | .insertAtEnd parent child => lists.edit parent (· ++ [child])
  | .insertAtStart parent child => lists.edit parent (child :: ·)
  | .insertBefore anchor child => { lists with below := fun key => beside 0 anchor child (lists.below key) }
  | .insertAfter anchor child => { lists with below := fun key => beside 1 anchor child (lists.below key) }
  | _ => lists

end ChildLists

namespace Forest
variable {f g : Forest} {parent child anchor key : Key} {before after : List Key}

-- A control put into the list of another one, between two stretches of it: no other list has
-- changed, no other control has another parent, and nothing but links is written.
structure Inserted (f : Forest) (parent : Key) (before after : List Key) (child : Key) (g : Forest) : Prop where
  was : f.children parent = before ++ after
  listed : g.children parent = before ++ child :: after
  changes : ∀ key, g.children key ≠ f.children key ↔ key = parent
  parents : ∀ key, (g.links key).parent = if child = key then some parent else (f.links key).parent
  size_eq : g.size = f.size
  keyOf_eq : ∀ key, g.keyOf key = f.keyOf key
  tag_eq : ∀ key, g.tag key = f.tag key
  box_eq : ∀ key, g.box key = f.box key

theorem Spliceable.inserted (ready : f.Spliceable parent before after child) (linked : f.Linked) :
    f.Inserted parent before after child (f.spliced parent before after child) where
  was := ready.siblings.children_eq
  listed := ready.siblings_parent.children_eq
  changes key := by
    constructor
    · intro changed
      by_contra elsewhere
      by_cases present : f.Contains key
      · exact changed (ready.siblings_other elsewhere (linked.siblings_children present)).children_eq
      · exact changed (by rw [children_of_missing present,children_of_missing fun there => present (contains_spliced.mp there)])
    · rintro rfl same
      rw [ready.siblings_parent.children_eq,ready.siblings.children_eq] at same
      exact List.cons_ne_self child after (List.append_cancel_left same)
  parents key := by rw [ready.links_eq]
  size_eq := size_splice ..
  keyOf_eq _ := keyOf_splice ..
  tag_eq _ := tag_splice ..
  box_eq _ := box_splice ..

theorem Inserted.children_eq (inserted : f.Inserted parent before after child g) :
    g.children = Function.update f.children parent (before ++ child :: after) := by
  funext key
  by_cases here : key = parent
  · rw [here,Function.update_self,inserted.listed]
  · rw [Function.update_of_ne here]
    exact not_not.mp fun changed => here ((inserted.changes key).mp changed)

theorem insertAtEnd_inserted (linked : f.Linked) (done : f.insertAtEnd parent child = .ok g) :
    f.Inserted parent (f.children parent) [] child g := by
  obtain ⟨keys,ready,rfl⟩ := insertAtEnd_spliced linked done
  have inserted := ready.inserted linked
  rwa [inserted.was,List.append_nil]

theorem insertAtStart_inserted (linked : f.Linked) (done : f.insertAtStart parent child = .ok g) :
    f.Inserted parent [] (f.children parent) child g := by
  obtain ⟨keys,ready,rfl⟩ := insertAtStart_spliced linked done
  have inserted := ready.inserted linked
  rwa [inserted.was]

theorem insertBefore_inserted (linked : f.Linked) (done : f.insertBefore anchor child = .ok g) :
    ∃ parent before after, (f.links anchor).parent = some parent ∧ f.Inserted parent before (anchor :: after) child g := by
  obtain ⟨parent,before,after,siblings,ready,rfl⟩ := insertBefore_spliced linked done
  exact ⟨parent,before,after,(siblings.members anchor).mp (by simp),ready.inserted linked⟩

theorem insertAfter_inserted (linked : f.Linked) (done : f.insertAfter anchor child = .ok g) :
    ∃ parent before after, (f.links anchor).parent = some parent ∧ f.Inserted parent (before ++ [anchor]) after child g := by
  obtain ⟨parent,before,after,siblings,ready,rfl⟩ := insertAfter_spliced linked done
  exact ⟨parent,before,after,(siblings.members anchor).mp (by simp),ready.inserted linked⟩

def childLists (f : Forest) : ChildLists := ⟨f.size,f.children⟩

theorem Inserted.childLists_eq (inserted : f.Inserted parent before after child g) :
    g.childLists = f.childLists.edit parent fun _ => before ++ child :: after := by
  rw [childLists,inserted.size_eq,inserted.children_eq]
  rfl

-- The anchor is in the list of its parent and in no other, so what is done to all lists is done
-- to that one.
theorem Inserted.childLists_beside {past : Nat} (inserted : f.Inserted parent before after child g) (linked : f.Linked)
    (under : (f.links anchor).parent = some parent) (put : beside past anchor child (f.children parent) = before ++ child :: after) :
    g.childLists = ⟨f.size,fun key => beside past anchor child (f.children key)⟩ := by
  rw [inserted.childLists_eq]
  refine congrArg (ChildLists.mk f.size) (funext fun key => ?_)
  by_cases here : key = parent
  · rw [here,Function.update_self,put]
  · have absent : anchor ∉ f.children key := fun member =>
      here (Option.some.inj ((linked.mem_children.mp member).symm.trans under))
    rw [Function.update_of_ne here,beside,if_neg absent]
    rfl

theorem not_mem_before (linked : f.Linked) (was : f.children parent = before ++ anchor :: after) : anchor ∉ before := by
  have distinct := linked.nodup_children parent
  rw [was] at distinct
  exact fun member => (List.disjoint_of_nodup_append distinct) member List.mem_cons_self

theorem childLists_apply (linked : f.Linked) {command : Command} (done : command.apply f = .ok g) :
    g.childLists = f.childLists.perform command := by
  cases command with
  | create =>
      cases done
      rw [childLists,funext (children_create linked),size_create]
      rfl
  | createChild parent =>
      simp only [Command.apply] at done
      rw [createChild_eq linked] at done
      split at done
      · rename_i present
        cases done
        have inserted := (spliceable_create linked present).inserted (linked_create linked)
        rw [inserted.childLists_eq,childLists,funext (children_create linked),size_create]
        rfl
      · cases done
  | clear =>
      cases done
      refine congrArg (ChildLists.mk 1) (funext fun key => ?_)
      exact children_of_bare (links_new key)
  | insertAtEnd parent child => exact (insertAtEnd_inserted linked done).childLists_eq
  | insertAtStart parent child => exact (insertAtStart_inserted linked done).childLists_eq
  | insertBefore anchor child =>
      obtain ⟨parent,before,after,under,inserted⟩ := insertBefore_inserted linked done
      have was := inserted.was
      exact inserted.childLists_beside linked under (by rw [was,beside_before (not_mem_before linked was)])
  | insertAfter anchor child =>
      obtain ⟨parent,before,after,under,inserted⟩ := insertAfter_inserted linked done
      have was := inserted.was
      rw [List.append_assoc,List.singleton_append] at was
      exact inserted.childLists_beside linked under (by rw [was,beside_after (not_mem_before linked was)])
  | setContainerFlags | setLayoutFlags | setSize | setMinimumSize | setMaximumSize | setMargins | setPadding
  | setFloatingPosition | setTag | setRect | update | updateSubtree =>
      have same := Command.sameLinks done rfl
      rw [childLists,same.size_eq,funext same.children_eq]
      rfl

-- By induction on the calls: each step edits the lists that the calls before it left.
theorem childLists_replay (linked : f.Linked) {commands : List Command}
    (done : commands.foldlM (fun f command => command.apply f) f = .ok g) :
    g.childLists = commands.foldl ChildLists.perform f.childLists := by
  induction commands generalizing f with
  | nil =>
      cases done
      rfl
  | cons command rest ih =>
      rw [List.foldlM_cons,Result.bind_ok] at done
      obtain ⟨next,applied,done⟩ := done
      rw [List.foldl_cons,← childLists_apply linked applied]
      exact ih ((Command.effect linked applied).linked linked) done

-- Whatever was called before, and whatever cycles unattached controls form: every insertion
-- that succeeds puts the child last, first or next to the anchor in one list and changes
-- nothing else, so a replay of calls that all succeed can be told from lists alone.
theorem insertions_edit_lists (path : f.Reachable) :
    (∀ parent child g, f.insertAtEnd parent child = .ok g → f.Inserted parent (f.children parent) [] child g) ∧
      (∀ parent child g, f.insertAtStart parent child = .ok g → f.Inserted parent [] (f.children parent) child g) ∧
      (∀ anchor child g, f.insertBefore anchor child = .ok g → ∃ parent before after,
        (f.links anchor).parent = some parent ∧ f.Inserted parent before (anchor :: after) child g) ∧
      (∀ anchor child g, f.insertAfter anchor child = .ok g → ∃ parent before after,
        (f.links anchor).parent = some parent ∧ f.Inserted parent (before ++ [anchor]) after child g) ∧
      ∀ (commands : List Command) g, commands.foldlM (fun f command => command.apply f) f = .ok g →
        g.childLists = commands.foldl ChildLists.perform f.childLists := by
  have linked := path.linked
  exact ⟨fun _ _ _ => insertAtEnd_inserted linked,fun _ _ _ => insertAtStart_inserted linked,
    fun _ _ _ => insertBefore_inserted linked,fun _ _ _ => insertAfter_inserted linked,
    fun _ _ => childLists_replay linked⟩

def tangled : Forest := Forest.after [.create,.createChild ⟨1⟩,.insertAtEnd ⟨2⟩ ⟨1⟩,.create,.create,.create]

def insertions : List Command :=
  [.insertAtStart ⟨1⟩ ⟨3⟩,.insertBefore ⟨2⟩ ⟨4⟩,.insertAfter ⟨3⟩ ⟨5⟩,.createChild ⟨2⟩]

theorem insertions_edit_lists_tangled : tangled.Reachable ∧ ¬tangled.Acyclic ⟨1⟩ ∧
    (∃ g, tangled.insertAtEnd ⟨2⟩ ⟨3⟩ = .ok g ∧ tangled.Inserted ⟨2⟩ [⟨1⟩] [] ⟨3⟩ g) ∧
    ∃ g, insertions.foldlM (fun f command => command.apply f) tangled = .ok g ∧
      g.childLists = insertions.foldl ChildLists.perform tangled.childLists ∧
      g.children ⟨1⟩ = [⟨3⟩,⟨5⟩,⟨4⟩,⟨2⟩] ∧ g.children ⟨2⟩ = [⟨1⟩,⟨6⟩] := by
  have path : tangled.Reachable := reachable_after _
  have cycle : ¬tangled.Acyclic ⟨1⟩ := fun acyclic =>
    acyclic ⟨⟨2⟩,by decide,.child (by decide : (tangled.links ⟨2⟩).parent = some ⟨1⟩) .self⟩
  obtain ⟨atEnd,_,_,_,replay⟩ := insertions_edit_lists path
  obtain ⟨g,one⟩ : ∃ g, tangled.insertAtEnd ⟨2⟩ ⟨3⟩ = .ok g := ⟨_,rfl⟩
  obtain ⟨h,all⟩ : ∃ h, insertions.foldlM (fun f command => command.apply f) tangled = .ok h := ⟨_,rfl⟩
  have lists := replay insertions h all
  have below : h.children = (insertions.foldl ChildLists.perform tangled.childLists).below := congrArg ChildLists.below lists
  refine ⟨path,cycle,⟨g,one,atEnd _ _ g one⟩,h,all,lists,?_,?_⟩
  · rw [below]
    decide +kernel
  · rw [below]
    decide +kernel

end Forest
end BoxLayout
