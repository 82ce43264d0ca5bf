import BoxLayout.Proofs.Forest.Refusals
import BoxLayout.Proofs.Snapshot.Settled

namespace BoxLayout

-- Every call once more as it changes a forest where it stands, write by write. A call
-- that fails halfway leaves here what it has written, so that none does can be said.

abbrev Edit := EStateM LayoutError Forest

def Result.onto (f : Forest) : Result Forest → EStateM.Result LayoutError Forest Unit
  | .ok g => .ok () g
  | .error e => .error e f

namespace Edit

def ask {α : Type} (question : Forest → Result α) : Edit α := fun f =>
  match question f with
  | .ok answer => .ok answer f
  | .error e => .error e f

def insertAfter (previous child : Key) : Edit Unit := do
  let parent ← ask (·.checkAnchor previous child)
  let next := ((← get).links previous).nextSibling
  modify (·.editLinks child fun links =>
    { links with parent := some parent, previousSibling := some previous, nextSibling := next })
  match next with
  | some next => modify (·.editLinks next ({ · with previousSibling := some child }))
  | none => modify (·.editLinks parent ({ · with lastChild := some child }))
  modify (·.editLinks previous ({ · with nextSibling := some child }))

def insertBefore (next child : Key) : Edit Unit := do
  let parent ← ask (·.checkAnchor next child)
  let previous := ((← get).links next).previousSibling
  modify (·.editLinks child fun links =>
    { links with parent := some parent, previousSibling := previous, nextSibling := some next })
  match previous with
  | some previous => modify (·.editLinks previous ({ · with nextSibling := some child }))
  | none => modify (·.editLinks parent ({ · with firstChild := some child }))
  modify (·.editLinks next ({ · with previousSibling := some child }))

def insertAtEnd (parent child : Key) : Edit Unit := do
  let _ ← ask (·.validate parent)
  ask (·.checkInsertable child)
  if parent = child then throw (.selfInsertion child)
  match ((← get).links parent).lastChild with
  | some last => insertAfter last child
  | none =>
      modify (·.editLinks parent ({ · with firstChild := some child, lastChild := some child }))
      modify (·.editLinks child ({ · with parent := some parent }))

def insertAtStart (parent child : Key) : Edit Unit := do
  let _ ← ask (·.validate parent)
  match ((← get).links parent).firstChild with
  | some first => insertBefore first child
  | none => insertAtEnd parent child

def create : Edit Key := modifyGet Forest.create

def createChild (parent : Key) : Edit Key := do
  let _ ← ask (·.validate parent)
  let key ← create
  insertAtEnd parent key
  return key

def setBox (key : Key) (change : Box → Box) : Edit Unit := do
  let _ ← ask (·.validate key)
  modify (·.editBox key change)

def fixAxis (key : Key) (axis : Axis) (size : Single) : Edit Unit :=
  modify (·.editBox key fun b =>
    { b with
      fixedSize := b.fixedSize.set axis (Forest.fixedAt size)
      flags := { b.flags with fixed := b.flags.fixed.set axis (decide (0 < size)) } })

def setSize (key : Key) (size : PerAxis Single) : Edit Unit := do
  let _ ← ask (·.validate key)
  fixAxis key .x size.x
  fixAxis key .y size.y

def updateSubtree (key : Key) : Edit Unit := do
  let _ ← ask (·.validate key)
  let marked := ((← get).box key).flags.isBreak
  let around := (← get).surround key
  modify (·.layOutAt around key)
  modify (·.editBox key (·.withBreak marked))

def carryOut : Command → Edit Unit
  | .create => do let _ ← create
  | .createChild parent => do let _ ← createChild parent
  | .clear => set Forest.new
  | .insertAtEnd parent child => insertAtEnd parent child
  | .insertAtStart parent child => insertAtStart parent child
  | .insertBefore next child => insertBefore next child
  | .insertAfter previous child => insertAfter previous child
  | .setContainerFlags key flags => do
      if ¬flags.Directed then throw (.invalidContainerFlags flags)
      setBox key ({ · with container := flags })
  | .setLayoutFlags key flags => setBox key fun b => { b with flags := flags.withMarkersOf b.flags }
  | .setSize key size => setSize key size
  | .setMinimumSize key size => setBox key ({ · with minimumSize := size })
  | .setMaximumSize key size => setBox key ({ · with maximumSize := size })
  | .setMargins key margins => setBox key ({ · with margins := margins })
  | .setPadding key padding => setBox key ({ · with padding := padding })
  | .setFloatingPosition key position => setBox key ({ · with floatingPosition := position })
  | .setTag key tag => do
      let _ ← ask (·.validate key)
      modify (·.edit key ({ · with tag := tag }))
  | .setRect key rect => setBox key ({ · with rect := rect })
  | .update => modify Forest.update
  | .updateSubtree key => updateSubtree key

end Edit

namespace Forest
variable {f : Forest}

theorem edit_comm (f : Forest) (key other : Key) (one two : Control → Control)
    (apart : ∀ control, two (one control) = one (two control)) :
    (f.edit key one).edit other two = (f.edit other two).edit key one := by
  refine eq_of_controls fun at_key => ?_
  simp only [controls_edit]
  split
  · split
    · simp only [Option.map_map,Function.comp_def,apart]
    · rfl
  · rfl

theorem editLinks_congr (f : Forest) (key : Key) {one two : Links → Links} (same : one (f.links key) = two (f.links key)) :
    f.editLinks key one = f.editLinks key two := by
  refine eq_of_controls fun at_key => ?_
  simp only [editLinks,controls_edit]
  split
  · rename_i here
    subst here
    cases found : f.controls[key.index]? with
    | none => rfl
    | some control =>
        simp only [links,found] at same
        simp [same]
  · rfl

theorem splice_only (linked : f.Linked) {parent child : Key} (free : (f.links child).parent = none) :
    f.splice parent none none child =
      (f.editLinks parent ({ · with firstChild := some child, lastChild := some child })).editLinks child
        ({ · with parent := some parent }) := by
  obtain ⟨previous,next⟩ := linked.free_alone child free
  have adopted : f.editLinks child ({ · with parent := some parent, previousSibling := none, nextSibling := none }) =
      f.editLinks child ({ · with parent := some parent }) :=
    editLinks_congr f child (by simp [previous,next])
  unfold splice
  dsimp only
  rw [adopted]
  unfold editLinks
  rw [edit_edit]
  exact edit_comm _ _ _ _ _ fun _ => rfl

end Forest

namespace Edit
variable {f : Forest} {α β : Type}

theorem ask_ok {question : Forest → Result α} {answer : α} (answered : question f = .ok answer) (next : α → Edit β) :
    (ask question >>= next) f = next answer f := by
  simp only [bind,EStateM.bind,ask,answered]

theorem ask_error {question : Forest → Result α} {e : LayoutError} (failed : question f = .error e) (next : α → Edit β) :
    (ask question >>= next) f = .error e f := by
  simp only [bind,EStateM.bind,ask,failed]

-- After a question the two go on alike, if they do for each answer it can have.
theorem ask_run {question : Forest → Result α} {next : α → Edit Unit} {rest : α → Result Forest}
    (each : ∀ answer, question f = .ok answer → next answer f = (rest answer).onto f) :
    (ask question >>= next) f = (question f >>= rest).onto f := by
  cases asked : question f with
  | error e => exact ask_error asked next
  | ok answer => exact (ask_ok asked next).trans (each answer asked)

theorem get_bind (next : Forest → Edit β) : (get >>= next) f = next f f := rfl

theorem modify_bind (change : Forest → Forest) (next : Unit → Edit β) :
    (modify change >>= next) f = next () (change f) := rfl

theorem insertAfter_run (f : Forest) (previous child : Key) :
    insertAfter previous child f = (f.insertAfter previous child).onto f := by
  refine ask_run fun parent _ => ?_
  rw [get_bind,modify_bind]
  cases (f.links previous).nextSibling with
  | none => exact congrArg (EStateM.Result.ok ()) (Forest.edit_comm _ _ _ _ _ fun _ => rfl)
  | some next => exact congrArg (EStateM.Result.ok ()) (Forest.edit_comm _ _ _ _ _ fun _ => rfl)

theorem insertBefore_run (f : Forest) (next child : Key) :
    insertBefore next child f = (f.insertBefore next child).onto f := by
  refine ask_run fun parent _ => ?_
  rw [get_bind,modify_bind]
  cases (f.links next).previousSibling with
  | none => rfl
  | some previous => rfl

theorem insertAtEnd_run (linked : f.Linked) (parent child : Key) :
    insertAtEnd parent child f = (f.insertAtEnd parent child).onto f := by
  refine ask_run fun _ _ => ask_run fun _ insertable => ?_
  by_cases same : parent = child
  · simp only [if_pos same]
    rfl
  · simp only [if_neg same]
    rw [get_bind]
    cases (f.links parent).lastChild with
    | some last => exact insertAfter_run f last child
    | none =>
        have free := (Forest.checkInsertable_ok insertable).2.2
        exact congrArg (EStateM.Result.ok ()) (Forest.splice_only linked free).symm

theorem insertAtStart_run (linked : f.Linked) (parent child : Key) :
    insertAtStart parent child f = (f.insertAtStart parent child).onto f := by
  refine ask_run fun _ _ => ?_
  rw [get_bind]
  cases (f.links parent).firstChild with
  | some first => exact insertBefore_run f first child
  | none => exact insertAtEnd_run linked parent child

theorem setBox_run (f : Forest) (key : Key) (change : Box → Box) :
    setBox key change f = (f.modifyBox key change).onto f := ask_run fun _ _ => rfl

theorem setSize_run (f : Forest) (key : Key) (size : PerAxis Single) :
    setSize key size f = (f.setSize key size).onto f := by
  refine ask_run fun _ _ => ?_
  exact congrArg (EStateM.Result.ok ()) (Forest.edit_edit ..)

theorem updateSubtree_run (f : Forest) (key : Key) : updateSubtree key f = (f.updateSubtree key).onto f :=
  ask_run fun _ _ => rfl

theorem createChild_run (linked : f.Linked) (parent : Key) :
    createChild parent f =
      if f.Contains parent then .ok f.create.1 (f.create.2.spliced parent (f.children parent) [] f.create.1)
      else .error (.invalidKey parent) f := by
  unfold createChild
  split
  · rename_i present
    have inserted := insertAtEnd_run (Forest.linked_create linked) parent f.create.1
    rw [Forest.insertAtEnd_create linked present] at inserted
    rw [ask_ok (Forest.validate_of_contains present)]
    change (insertAtEnd parent f.create.1 >>= fun _ => pure f.create.1) f.create.2 = _
    simp only [bind,EStateM.bind,inserted]
    rfl
  · rename_i missing
    exact ask_error (if_neg missing) _

theorem carryOut_run (linked : f.Linked) (command : Command) : carryOut command f = (command.apply f).onto f := by
  cases command with
  | create | clear | update => rfl
  | createChild parent =>
      simp only [carryOut,bind,EStateM.bind,Command.apply,createChild_run linked,Forest.createChild_eq linked]
      by_cases present : f.Contains parent
      · simp only [if_pos present]
        rfl
      · simp only [if_neg present]
        rfl
  | insertAtEnd parent child => exact insertAtEnd_run linked parent child
  | insertAtStart parent child => exact insertAtStart_run linked parent child
  | insertBefore next child => exact insertBefore_run f next child
  | insertAfter previous child => exact insertAfter_run f previous child
  | setContainerFlags key flags =>
      by_cases directed : flags.Directed
      · simp only [carryOut,Command.apply,Forest.setContainerFlags,directed,not_true_eq_false,if_false,if_true]
        exact setBox_run f key _
      · simp only [carryOut,Command.apply,Forest.setContainerFlags,directed,not_false_eq_true,if_false,if_true]
        rfl
  | setTag key tag => exact ask_run fun _ _ => rfl
  | setSize key size => exact setSize_run f key size
  | updateSubtree key => exact updateSubtree_run f key
  | setLayoutFlags key | setMinimumSize key | setMaximumSize key | setMargins key | setPadding key
  | setFloatingPosition key | setRect key => exact setBox_run f key _

theorem onto_error {result : Result Forest} {e : LayoutError} {g : Forest} (failed : result.onto f = .error e g) :
    result = .error e ∧ g = f := by
  cases result with
  | ok _ => cases failed
  | error _ =>
      cases failed
      exact ⟨rfl,rfl⟩

-- Wherever calls have led: whatever fails leaves everything as it was, a child that
-- cannot be placed is not made, and an insertion at the end fails for these reasons
-- only, the first of them that holds.
theorem failing_calls (path : f.Reachable) :
    (∀ command, carryOut command f = (command.apply f).onto f) ∧
      (∀ command e g, carryOut command f = .error e g → g = f) ∧
      (∀ parent, createChild parent f =
        if f.Contains parent then .ok f.create.1 (f.create.2.spliced parent (f.children parent) [] f.create.1)
        else .error (.invalidKey parent) f) ∧
      (∀ parent child, insertAtEnd parent child f =
        if ¬f.Contains parent then .error (.invalidKey parent) f
        else if ¬f.Contains child then .error (.invalidKey child) f
        else if child = .root then .error .rootInsertion f
        else if (f.links child).parent ≠ none then .error (.alreadyParented child) f
        else if parent = child then .error (.selfInsertion child) f
        else .ok () (f.spliced parent (f.children parent) [] child)) ∧
      ∀ parent child anchor g, insertAtEnd parent child f ≠ .error (.noParent anchor) g := by
  have linked := path.linked
  have runs := carryOut_run linked
  refine ⟨runs,?_,createChild_run linked,?_,?_⟩
  · intro command e g failed
    rw [runs] at failed
    exact (onto_error failed).2
  · intro parent child
    rw [insertAtEnd_run linked,Forest.insertAtEnd_refusals linked]
    split_ifs <;> rfl
  · intro parent child anchor g failed
    rw [insertAtEnd_run linked] at failed
    have refused := (onto_error failed).1
    rw [Forest.insertAtEnd_refusals linked] at refused
    split_ifs at refused <;> cases refused

def childAndLoose : Forest := Forest.after [.createChild .root,.create]

theorem failing_calls_childAndLoose : childAndLoose.Reachable ∧
    carryOut (.createChild ⟨3⟩) childAndLoose = .error (.invalidKey ⟨3⟩) childAndLoose ∧
      insertAtEnd .root ⟨1⟩ childAndLoose = .error (.alreadyParented ⟨1⟩) childAndLoose ∧
      insertAtEnd ⟨2⟩ ⟨2⟩ childAndLoose = .error (.selfInsertion ⟨2⟩) childAndLoose := by
  have path : childAndLoose.Reachable := Forest.reachable_after _
  obtain ⟨runs,_,_,inserted,_⟩ := failing_calls path
  exact ⟨path,(runs _).trans rfl,(inserted .root ⟨1⟩).trans rfl,(inserted ⟨2⟩ ⟨2⟩).trans rfl⟩

end Edit
end BoxLayout
