import BoxLayout.Proofs.Forest.InPlace

namespace BoxLayout

-- Controls put below themselves. Three of the four insertions compare the child with
-- the anchor only, so they let the top of a loose tree in among its own children.

def Command.placed? (f : Forest) : Command → Option (Key × Key)
  | .createChild parent => some (f.create.1,parent)
  | .insertAtEnd parent child | .insertAtStart parent child => some (child,parent)
  | .insertBefore anchor child | .insertAfter anchor child => (f.links anchor).parent.map (child,·)
  | _ => none

def Command.appends : Command → Bool
  | .insertAtEnd _ _ => true
  | _ => false

namespace Forest
variable {f g : Forest} {parent child anchor key : Key} {before after : List Key}

structure LooseTop (f : Forest) (key : Key) : Prop where
  present : f.Contains key
  not_root : key ≠ .root
  free : (f.links key).parent = none
  holds : f.children key ≠ []

theorem LooseTop.insertable (top : f.LooseTop key) : f.checkInsertable key = .ok () :=
  checkInsertable_of top.present top.not_root top.free

theorem looseTop_of (insertable : f.checkInsertable key = .ok ()) (holds : f.children key ≠ []) : f.LooseTop key := by
  obtain ⟨present,notRoot,free⟩ := checkInsertable_ok insertable
  exact ⟨present,notRoot,free,holds⟩

structure Placed (f : Forest) (child parent : Key) (g : Forest) : Prop where
  free : (f.links child).parent = none
  parent_eq : ∀ key, (g.links key).parent = if child = key then some parent else (f.links key).parent

theorem Spliceable.placed (ready : f.Spliceable parent before after child) :
    f.Placed child parent (f.spliced parent before after child) where
  free := ready.free
  parent_eq key := by rw [ready.links_eq]

theorem Siblings.placed_beside (siblings : f.Siblings parent (before ++ anchor :: after)) (child : Key) :
    (f.links anchor).parent.map (child,·) = some (child,parent) := by
  rw [(siblings.members anchor).mp (by simp),Option.map_some]

end Forest

open Forest

theorem Command.placement {f g : Forest} (linked : f.Linked) {command : Command} (done : command.apply f = .ok g)
    (kept : command ≠ .clear) : match command.placed? f with
      | some (child,parent) => f.Placed child parent g
      | none => ∀ key, (g.links key).parent = (f.links key).parent := by
  cases command with
  | create =>
      cases done
      exact fun key => congrArg Links.parent (links_create f key)
  | createChild parent =>
      simp only [apply,createChild_eq linked] at done
      split at done
      · rename_i present
        cases done
        obtain ⟨free,parent_eq⟩ := (spliceable_create linked present).placed
        simp only [links_create] at free parent_eq
        exact ⟨free,parent_eq⟩
      · cases done
  | clear => exact absurd rfl kept
  | insertAtEnd parent child =>
      obtain ⟨_,ready,rfl⟩ := insertAtEnd_spliced linked done
      exact ready.placed
  | insertAtStart parent child =>
      obtain ⟨_,ready,rfl⟩ := insertAtStart_spliced linked done
      exact ready.placed
  | insertBefore next child =>
      obtain ⟨_,_,_,siblings,ready,rfl⟩ := insertBefore_spliced linked done
      simp only [placed?,siblings.placed_beside]
      exact ready.placed
  | insertAfter previous child =>
      obtain ⟨_,_,_,siblings,ready,rfl⟩ := insertAfter_spliced linked done
      simp only [placed?,siblings.placed_beside]
      exact ready.placed
  | setContainerFlags | setLayoutFlags | setSize | setMinimumSize | setMaximumSize | setMargins | setPadding
  | setFloatingPosition | setTag | setRect | update | updateSubtree =>
      exact fun key => congrArg Links.parent ((Command.sameLinks done rfl).links_eq key)

theorem Result.bind_pure_ok {α β : Type} {first : Result α} {last : α → β} :
    (∃ result, (first >>= fun value => pure (last value)) = .ok result) ↔ ∃ value, first = .ok value := by
  cases first <;> simp [bind,Except.bind,pure,Except.pure]

namespace Forest
variable {f g : Forest} {anchor key : Key} {command : Command}

-- One call more makes a control its own parent by placing it there, and only clearing
-- undoes that.
theorem selfParent_perform (linked : f.Linked) (command : Command) (key : Key) :
    ((f.perform command).links key).parent = some key ↔
      (command.placed? f = some (key,key) ∧ ∃ g, command.apply f = .ok g) ∨
        command ≠ .clear ∧ (f.links key).parent = some key := by
  unfold perform
  cases done : command.apply f with
  | error e =>
      have kept : command ≠ .clear := by
        rintro rfl
        cases done
      simp [kept]
  | ok g =>
      by_cases cleared : command = .clear
      · subst cleared
        cases done
        simp [Command.placed?,links_new,Links.none]
      · have placement := Command.placement linked done cleared
        cases placed : command.placed? f with
        | none =>
            rw [placed] at placement
            simp [placement key,cleared]
        | some row =>
            obtain ⟨child,parent⟩ := row
            rw [placed] at placement
            by_cases same : child = key
            · subst same
              simp [placement.parent_eq,placement.free]
            · simp [placement.parent_eq,same,cleared]

theorem selfParent_after (commands : List Command) (key : Key) :
    ((after commands).links key).parent = some key ↔
      ∃ before command later, commands = before ++ command :: later ∧ command.placed? (after before) = some (key,key) ∧
        (∃ g, command.apply (after before) = .ok g) ∧ .clear ∉ later := by
  induction commands using List.reverseRecOn with
  | nil =>
      constructor
      · intro under
        rw [after,List.foldl_nil,links_new] at under
        cases under
      · rintro ⟨before,command,later,split,_⟩
        simp at split
  | append_singleton commands last ih =>
      rw [after_concat,selfParent_perform (reachable_after commands).linked,ih]
      constructor
      · rintro (⟨placed,done⟩ | ⟨kept,before,command,later,rfl,placed,done,uncleared⟩)
        · exact ⟨commands,last,[],rfl,placed,done,List.not_mem_nil⟩
        · refine ⟨before,command,later ++ [last],by simp,placed,done,?_⟩
          simp [uncleared,kept.symm]
      · rintro ⟨before,command,later,split,placed,done,uncleared⟩
        rcases List.eq_nil_or_concat' later with rfl | ⟨later,other,rfl⟩
        · obtain ⟨rfl,same⟩ := List.append_inj' split rfl
          cases same
          exact .inl ⟨placed,done⟩
        · rw [← List.cons_append,← List.append_assoc] at split
          obtain ⟨rfl,same⟩ := List.append_inj' split rfl
          cases same
          simp only [List.mem_append,List.mem_singleton,not_or] at uncleared
          exact .inr ⟨Ne.symm uncleared.2,before,command,later,rfl,placed,done,uncleared.1⟩

theorem checkAnchor_own (linked : f.Linked) (member : anchor ∈ f.children key) :
    (∃ parent, f.checkAnchor anchor key = .ok parent) ↔ f.LooseTop key := by
  rw [checkAnchor_child linked member]
  constructor
  · rintro ⟨_,anchored⟩
    cases insertable : f.checkInsertable key with
    | error e => rw [insertable] at anchored; cases anchored
    | ok _ => exact looseTop_of insertable (List.ne_nil_of_mem member)
  · intro top
    exact ⟨key,by rw [top.insertable]; rfl⟩

theorem insertAtStart_own (linked : f.Linked) (key : Key) : (∃ g, f.insertAtStart key key = .ok g) ↔ f.LooseTop key := by
  rw [insertAtStart_eq linked]
  constructor
  · rintro ⟨g,done⟩
    obtain ⟨_,_,done⟩ := Result.bind_ok.mp done
    obtain ⟨_,insertable,done⟩ := Result.bind_ok.mp done
    refine looseTop_of insertable fun childless => ?_
    simp only [childless,and_self,if_true] at done
    cases done
  · intro top
    simp only [validate_of_contains top.present,top.insertable,Result.ok_bind,top.holds,and_false,if_false]
    exact ⟨_,rfl⟩

theorem placed_own (linked : f.Linked) (placed : command.placed? f = some (key,key)) :
    (∃ g, command.apply f = .ok g) ↔ command.appends = false ∧ f.LooseTop key := by
  cases command with
  | createChild parent =>
      cases placed
      have missing : ¬f.Contains f.create.1 := Nat.lt_irrefl f.size
      constructor
      · rintro ⟨g,done⟩
        simp only [Command.apply,createChild_eq linked,if_neg missing] at done
        cases done
      · intro top
        exact absurd top.2.present missing
  | insertAtEnd parent child =>
      cases placed
      constructor
      · rintro ⟨g,done⟩
        exact absurd rfl ((insertAtEnd_ok linked).mp done).1.apart
      · intro top
        cases top.1
  | insertAtStart parent child =>
      cases placed
      simp only [Command.apply,Command.appends,true_and]
      exact insertAtStart_own linked key
  | insertBefore anchor child =>
      obtain ⟨parent,under,same⟩ := Option.map_eq_some_iff.mp placed
      cases same
      simp only [Command.apply,Command.appends,true_and,← checkAnchor_own linked (linked.mem_children.mpr under)]
      exact Result.bind_pure_ok
  | insertAfter anchor child =>
      obtain ⟨parent,under,same⟩ := Option.map_eq_some_iff.mp placed
      cases same
      simp only [Command.apply,Command.appends,true_and,← checkAnchor_own linked (linked.mem_children.mpr under)]
      exact Result.bind_pure_ok
  | _ => cases placed

-- The two ends of a sibling list differ in the one case.
theorem ends_agree_iff (linked : f.Linked) (parent child : Key) :
    (f.insertAtStart parent child).map (fun _ => ()) = (f.insertAtEnd parent child).map (fun _ => ()) ↔
      ¬(parent = child ∧ f.LooseTop child) := by
  rw [insertAtStart_eq linked,insertAtEnd_eq linked]
  cases found : f.validate parent with
  | error e =>
      simp only [bind,Except.bind,true_iff,not_and]
      rintro rfl top
      rw [validate_of_contains top.present] at found
      cases found
  | ok _ =>
      cases insertable : f.checkInsertable child with
      | error e =>
          simp only [bind,Except.bind,true_iff,not_and]
          rintro _ top
          rw [top.insertable] at insertable
          cases insertable
      | ok _ =>
          simp only [Result.ok_bind]
          by_cases same : parent = child
          · subst same
            by_cases childless : f.children parent = []
            · simp only [childless,and_self,if_true,true_iff,true_and]
              exact fun top => top.holds childless
            · simp only [childless,and_false,if_false,if_true,true_and]
              exact ⟨nofun,fun loose => absurd (looseTop_of insertable childless) loose⟩
          · simp only [same,false_and,if_false,not_false_eq_true,iff_true]
            rfl

open Edit in
-- Whatever was called: a control is its own parent when a call has put it there, as the
-- top of a loose tree, and nothing was cleared since. Only an insertion at the end refuses
-- such a top; everything else that is to stand below itself is refused, with nothing
-- changed; and the two ends differ in nothing but that.
theorem self_insertions (commands : List Command) :
    (∀ key, ((after commands).links key).parent = some key ↔
      ∃ before command later, commands = before ++ command :: later ∧ command.placed? (after before) = some (key,key) ∧
        (command.appends = false ∧ (after before).LooseTop key) ∧ .clear ∉ later) ∧
      (∀ command key, command.placed? (after commands) = some (key,key) →
        (command.appends = false ∧ (after commands).LooseTop key →
          ∃ g, carryOut command (after commands) = .ok () g ∧ (g.links key).parent = some key) ∧
        (¬(command.appends = false ∧ (after commands).LooseTop key) →
          ∃ e, carryOut command (after commands) = .error e (after commands))) ∧
      ∀ parent child, ((after commands).insertAtStart parent child).map (fun _ => ()) =
        ((after commands).insertAtEnd parent child).map (fun _ => ()) ↔
          ¬(parent = child ∧ (after commands).LooseTop child) := by
  have linked := (reachable_after commands).linked
  refine ⟨?_,?_,ends_agree_iff linked⟩
  · intro key
    rw [selfParent_after]
    constructor
    · rintro ⟨before,command,later,split,placed,done,uncleared⟩
      exact ⟨before,command,later,split,placed,(placed_own (reachable_after before).linked placed).mp done,uncleared⟩
    · rintro ⟨before,command,later,split,placed,top,uncleared⟩
      exact ⟨before,command,later,split,placed,(placed_own (reachable_after before).linked placed).mpr top,uncleared⟩
  · intro command key placed
    rw [carryOut_run linked,← placed_own linked placed]
    constructor
    · rintro ⟨g,done⟩
      have moved := (selfParent_perform linked command key).mpr (.inl ⟨placed,g,done⟩)
      rw [perform,done] at moved
      rw [done]
      exact ⟨g,rfl,moved⟩
    · intro refused
      cases done : command.apply (after commands) with
      | ok g => exact absurd ⟨g,done⟩ refused
      | error e => exact ⟨e,rfl⟩

def loosePair : List Command := [.create,.createChild ⟨1⟩]

theorem self_insertions_loosePair : (Command.insertBefore ⟨2⟩ ⟨1⟩).placed? (after loosePair) = some (⟨1⟩,⟨1⟩) ∧
    (after loosePair).LooseTop ⟨1⟩ ∧
      ((after (loosePair ++ [.insertBefore ⟨2⟩ ⟨1⟩,.update])).links ⟨1⟩).parent = some ⟨1⟩ ∧
      ∃ e, Edit.carryOut (.insertAtStart ⟨2⟩ ⟨2⟩) (after loosePair) = .error e (after loosePair) := by
  have top : (after loosePair).LooseTop ⟨1⟩ := ⟨by decide,by decide,rfl,by decide⟩
  obtain ⟨_,outcomes,_⟩ := self_insertions loosePair
  refine ⟨by decide,top,?_,?_⟩
  · exact ((self_insertions _).1 _).mpr ⟨loosePair,.insertBefore ⟨2⟩ ⟨1⟩,[.update],rfl,by decide,⟨rfl,top⟩,by decide⟩
  · refine (outcomes (.insertAtStart ⟨2⟩ ⟨2⟩) ⟨2⟩ rfl).2 ?_
    rintro ⟨_,childless⟩
    exact childless.holds (by decide)

-- The first place among its own children, and any beside them, is given to a control
-- that is refused the last one.
theorem self_insertions_accepted :
    (after loosePair).insertAtEnd ⟨1⟩ ⟨1⟩ = .error (.selfInsertion ⟨1⟩) ∧
      (∃ g, (after loosePair).insertAtStart ⟨1⟩ ⟨1⟩ = .ok g ∧ (g.links ⟨1⟩).parent = some ⟨1⟩) ∧
      (∃ g, (after loosePair).insertBefore ⟨2⟩ ⟨1⟩ = .ok g ∧ (g.links ⟨1⟩).parent = some ⟨1⟩) ∧
      ∃ g, (after loosePair).insertAfter ⟨2⟩ ⟨1⟩ = .ok g ∧ (g.links ⟨1⟩).parent = some ⟨1⟩ :=
  ⟨rfl,⟨_,rfl,rfl⟩,⟨_,rfl,rfl⟩,⟨_,rfl,rfl⟩⟩

end Forest
end BoxLayout
