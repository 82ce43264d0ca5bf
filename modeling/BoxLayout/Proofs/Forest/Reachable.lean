import Mathlib.Data.List.Induction
import BoxLayout.Command
import BoxLayout.Snapshot.Restore
import BoxLayout.Proofs.Forest.Insertion

namespace BoxLayout
namespace Forest

-- Forests that calls lead to, and the links in all of them.

variable {f g h : Forest} {key parent child : Key}

structure SameLinks (f g : Forest) : Prop where
  size_eq : g.size = f.size
  links_eq : ∀ key, g.links key = f.links key
  keyOf_eq : ∀ key, g.keyOf key = f.keyOf key

theorem SameLinks.refl (f : Forest) : SameLinks f f := ⟨rfl,fun _ => rfl,fun _ => rfl⟩

theorem SameLinks.trans (one : SameLinks f g) (two : SameLinks g h) : SameLinks f h :=
  ⟨two.size_eq.trans one.size_eq,fun key => (two.links_eq key).trans (one.links_eq key),
    fun key => (two.keyOf_eq key).trans (one.keyOf_eq key)⟩

theorem SameLinks.symm (same : SameLinks f g) : SameLinks g f :=
  ⟨same.size_eq.symm,fun key => (same.links_eq key).symm,fun key => (same.keyOf_eq key).symm⟩

theorem SameLinks.contains_iff (same : SameLinks f g) (key : Key) : g.Contains key ↔ f.Contains key := by
  simp only [Contains,same.size_eq]

theorem sameLinks_edit (f : Forest) (key : Key) (change : Control → Control)
    (keyKept : ∀ control, (change control).key = control.key)
    (linksKept : ∀ control, (change control).links = control.links) : SameLinks f (f.edit key change) :=
  ⟨size_edit ..,fun other => links_edit _ _ other _ linksKept,fun other => keyOf_edit _ _ other _ keyKept⟩

theorem sameLinks_editBox (f : Forest) (key : Key) (change : Box → Box) : SameLinks f (f.editBox key change) :=
  sameLinks_edit _ _ _ (fun _ => rfl) fun _ => rfl

theorem sameLinks_writeBack (f : Forest) (keys : List Key) (boxes : List Box) :
    SameLinks f (f.writeBack keys boxes) := by
  unfold writeBack
  generalize keys.zip boxes = rows
  induction rows generalizing f with
  | nil => exact .refl f
  | cons row rest ih => exact (sameLinks_editBox f row.1 _).trans (ih _)

theorem sameLinks_layOutAt (f : Forest) (around : Option Surround) (key : Key) :
    SameLinks f (f.layOutAt around key) := sameLinks_writeBack _ _ _

theorem sameLinks_update (f : Forest) : SameLinks f f.update := sameLinks_layOutAt _ _ _

theorem Siblings.congr {keys : List Key} (siblings : f.Siblings parent keys)
    (same : ∀ key, g.links key = f.links key) : g.Siblings parent keys := by
  have links : g.links = f.links := funext same
  obtain ⟨distinct,members,last,forward,backward⟩ := siblings
  rw [← links] at members last forward backward
  exact ⟨distinct,members,last,forward,backward⟩

theorem SameLinks.linked (same : SameLinks f g) (linked : f.Linked) : g.Linked where
  root_present := by
    rw [same.size_eq]
    exact linked.root_present
  own_key key present := by
    rw [same.keyOf_eq]
    exact linked.own_key key ((same.contains_iff key).mp present)
  named_present key named names := by
    rw [same.links_eq] at names
    exact (same.contains_iff named).mpr (linked.named_present key named names)
  root_free := by
    rw [same.links_eq]
    exact linked.root_free
  free_alone key free := by
    rw [same.links_eq] at free ⊢
    exact linked.free_alone key free
  siblings parent present := by
    obtain ⟨keys,siblings⟩ := linked.siblings parent ((same.contains_iff parent).mp present)
    exact ⟨keys,siblings.congr same.links_eq⟩

theorem Linked.keyOf_eq (here : f.Linked) (there : g.Linked) (size : g.size = f.size) (key : Key) : g.keyOf key = f.keyOf key := by
  by_cases present : f.Contains key
  · have inside : g.Contains key := by simpa only [Contains,size] using present
    rw [here.own_key key present,there.own_key key inside]
  · have missing : ¬g.Contains key := by simpa only [Contains,size] using present
    simp only [keyOf,controls_of_missing present,controls_of_missing missing]

theorem siblings_nil (bare : f.links parent = .none) (childless : ∀ key, (f.links key).parent ≠ some parent) :
    f.Siblings parent [] where
  distinct := .nil
  members key := by simp [childless key]
  last := by rw [bare]; rfl
  forward := by rw [bare]; rfl
  backward := by rw [bare]; rfl

theorem contains_new : new.Contains key ↔ key = .root := by
  obtain ⟨i⟩ := key
  simp only [Key.root,Key.mk.injEq]
  exact Nat.lt_one_iff

theorem links_new (key : Key) : new.links key = .none := by
  by_cases present : new.Contains key
  · rw [contains_new.mp present]
    rfl
  · exact links_of_missing present

theorem linked_new : new.Linked where
  root_present := Nat.le_refl 1
  own_key key present := by
    rw [contains_new.mp present]
    rfl
  named_present key named names := by
    rw [links_new] at names
    exact absurd names (Links.names_none named)
  root_free := rfl
  free_alone key _ := by
    rw [links_new]
    exact ⟨rfl,rfl⟩
  siblings parent _ := ⟨[],siblings_nil (links_new parent) (by simp [links_new,Links.none])⟩

theorem linked_create (linked : f.Linked) : f.create.2.Linked where
  root_present := by
    rw [size_create]
    exact Nat.le_add_left 1 _
  own_key key present := by
    rw [keyOf_create]
    split
    · rfl
    · rename_i old
      exact linked.own_key key (((contains_create f key).mp present).resolve_left old)
  named_present key named names := by
    rw [links_create] at names
    exact (contains_create f named).mpr (.inr (linked.named_present key named names))
  root_free := by
    rw [links_create]
    exact linked.root_free
  free_alone key free := by
    rw [links_create] at free ⊢
    exact linked.free_alone key free
  siblings parent present := by
    rcases (contains_create f parent).mp present with fresh | old
    · have missing : ¬f.Contains parent := by simp only [Contains]; omega
      refine ⟨[],siblings_nil ?_ ?_⟩
      · rw [links_create,links_of_missing missing]
      · intro key under
        rw [links_create] at under
        exact missing (linked.named_present key parent (.inl under))
    · obtain ⟨keys,siblings⟩ := linked.siblings parent old
      exact ⟨keys,siblings.congr (links_create f)⟩

theorem modifyBox_ok {change : Box → Box} (done : f.modifyBox key change = .ok g) :
    f.Contains key ∧ g = f.editBox key change := by
  obtain ⟨_,found,done⟩ := Result.bind_ok.mp done
  cases done
  exact ⟨(validate_ok found).1,rfl⟩

theorem updateSubtree_ok (done : f.updateSubtree key = .ok g) : f.Contains key ∧
    g = (f.layOutAt (f.surround key) key).editBox key (·.withBreak (f.box key).flags.isBreak) := by
  obtain ⟨_,found,done⟩ := Result.bind_ok.mp done
  cases done
  exact ⟨(validate_ok found).1,rfl⟩

theorem createChild_ok {made : Key} (done : f.createChild parent = .ok (made,g)) :
    f.Contains parent ∧ made = f.create.1 ∧ f.create.2.insertAtEnd parent made = .ok g := by
  obtain ⟨_,found,done⟩ := Result.bind_ok.mp done
  obtain ⟨next,inserted,done⟩ := Result.bind_ok.mp done
  cases done
  exact ⟨(validate_ok found).1,rfl,inserted⟩

theorem setTag_ok {tag : Word} (done : f.setTag key tag = .ok g) :
    f.Contains key ∧ g = f.edit key ({ · with tag := tag }) := by
  obtain ⟨_,found,done⟩ := Result.bind_ok.mp done
  cases done
  exact ⟨(validate_ok found).1,rfl⟩

theorem setContainerFlags_ok {flags : ContainerFlags} (done : f.setContainerFlags key flags = .ok g) :
    flags.Directed ∧ f.Contains key ∧ g = f.editBox key ({ · with container := flags }) := by
  unfold setContainerFlags at done
  split at done
  · rename_i directed
    exact ⟨directed,modifyBox_ok done⟩
  · cases done

end Forest

open Forest

def Command.creates : Command → Bool
  | .create | .createChild _ => true
  | _ => false

def Command.settles : Command → Bool
  | .create | .createChild _ | .clear => false
  | .insertAtEnd _ _ | .insertAtStart _ _ | .insertBefore _ _ | .insertAfter _ _ => false
  | _ => true

theorem Command.sameLinks {f g : Forest} {command : Command} (done : command.apply f = .ok g) (settles : command.settles = true) :
    SameLinks f g := by
  have edited : ∀ {key change}, f.modifyBox key change = .ok g → SameLinks f g := by
    intro key change done
    obtain ⟨_,rfl⟩ := modifyBox_ok done
    exact sameLinks_editBox _ _ _
  cases command with
  | create | createChild | clear | insertAtEnd | insertAtStart | insertBefore | insertAfter => cases settles
  | setContainerFlags key flags =>
      obtain ⟨_,_,rfl⟩ := setContainerFlags_ok done
      exact sameLinks_editBox _ _ _
  | setTag key tag =>
      obtain ⟨_,rfl⟩ := setTag_ok done
      exact sameLinks_edit _ _ _ (fun _ => rfl) fun _ => rfl
  | update => cases done; exact sameLinks_update f
  | updateSubtree key =>
      obtain ⟨_,rfl⟩ := updateSubtree_ok done
      exact (sameLinks_layOutAt _ _ _).trans (sameLinks_editBox _ _ _)
  | setLayoutFlags | setSize | setMinimumSize | setMaximumSize | setMargins | setPadding
  | setFloatingPosition | setRect => exact edited done

-- What a successful call does to the links: nothing, a new control, a splice, or
-- both of these, or everything goes.
inductive Command.Effect (f : Forest) : Bool → Forest → Prop where
  | settings : SameLinks f g → Effect f false g
  | created : Effect f true f.create.2
  | spliced : f.Spliceable parent before after child → Effect f false (f.spliced parent before after child)
  | createdChild : f.create.2.Spliceable parent before after f.create.1 →
      Effect f true (f.create.2.spliced parent before after f.create.1)
  | cleared : Effect f false .new

theorem Command.effect {f g : Forest} (linked : f.Linked) {command : Command} (done : command.apply f = .ok g) :
    Command.Effect f command.creates g := by
  cases command with
  | create => cases done; exact .created
  | createChild parent =>
      simp only [Command.apply] at done
      cases made : f.createChild parent with
      | error e => simp [made,Except.map] at done
      | ok pair =>
          obtain ⟨key,next⟩ := pair
          rw [made] at done
          cases done
          obtain ⟨_,rfl,inserted⟩ := createChild_ok made
          obtain ⟨keys,ready,rfl⟩ := insertAtEnd_spliced (linked_create linked) inserted
          exact .createdChild ready
  | clear => cases done; exact .cleared
  | insertAtEnd parent child =>
      obtain ⟨_,ready,rfl⟩ := insertAtEnd_spliced linked done
      exact .spliced ready
  | insertAtStart parent child =>
      obtain ⟨_,ready,rfl⟩ := insertAtStart_spliced linked done
      exact .spliced ready
  | insertBefore next child =>
      obtain ⟨_,_,_,_,ready,rfl⟩ := insertBefore_spliced linked done
      exact .spliced ready
  | insertAfter previous child =>
      obtain ⟨_,_,_,_,ready,rfl⟩ := insertAfter_spliced linked done
      exact .spliced ready
  | setContainerFlags | setLayoutFlags | setSize | setMinimumSize | setMaximumSize | setMargins | setPadding
  | setFloatingPosition | setTag | setRect | update | updateSubtree => exact .settings (Command.sameLinks done rfl)

variable {f g : Forest} {creates : Bool}

theorem Command.Effect.linked (effect : Command.Effect f creates g) (linked : f.Linked) : g.Linked := by
  cases effect with
  | settings same => exact same.linked linked
  | created => exact linked_create linked
  | spliced ready => exact ready.linked linked
  | createdChild ready => exact ready.linked (linked_create linked)
  | cleared => exact linked_new

theorem Command.Effect.size_le (effect : Command.Effect f creates g) (linked : f.Linked) :
    g.size ≤ f.size + creates.toNat := by
  cases effect with
  | settings same => exact Nat.le_of_eq same.size_eq
  | created => exact Nat.le_of_eq (size_create f)
  | spliced ready => exact Nat.le_of_eq (size_splice ..)
  | createdChild ready =>
      rw [Forest.spliced,size_splice,size_create]
      exact Nat.le_refl _
  | cleared => exact linked.root_present

namespace Forest

inductive Reachable : Forest → Prop where
  | new : Reachable .new
  | step {f g : Forest} {command : Command} : Reachable f → command.apply f = .ok g → Reachable g

theorem Reachable.linked (path : Reachable f) : f.Linked := by
  induction path with
  | new => exact linked_new
  | step _ done ih => exact (Command.effect ih done).linked ih

def perform (f : Forest) (command : Command) : Forest :=
  match command.apply f with
  | .ok next => next
  | .error _ => f

def after (commands : List Command) : Forest := commands.foldl perform .new

theorem Reachable.perform (path : Reachable f) (command : Command) : Reachable (f.perform command) := by
  unfold Forest.perform
  split
  · rename_i done
    exact .step path done
  · exact path

theorem Reachable.performs (path : f.Reachable) (commands : List Command) :
    (commands.foldl Forest.perform f).Reachable := by
  induction commands generalizing f with
  | nil => exact path
  | cons command rest ih => exact ih (path.perform command)

theorem after_concat (commands : List Command) (command : Command) :
    after (commands ++ [command]) = (after commands).perform command := by
  simp only [after,List.foldl_append,List.foldl_cons,List.foldl_nil]

theorem reachable_after (commands : List Command) : Reachable (after commands) := Reachable.new.performs commands

theorem size_after (commands : List Command) : (after commands).size ≤ commands.countP Command.creates + 1 := by
  induction commands using List.reverseRecOn with
  | nil => exact Nat.le_refl 1
  | append_singleton commands command ih =>
      rw [after_concat,List.countP_append,List.countP_singleton]
      unfold perform
      split
      · rename_i done
        have linked := (reachable_after commands).linked
        have grown := (Command.effect linked done).size_le linked
        cases creating : command.creates <;> simp [creating] at grown ⊢ <;> omega
      · omega

end Forest
end BoxLayout
