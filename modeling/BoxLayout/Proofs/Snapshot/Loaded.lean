import BoxLayout.Proofs.Snapshot.Reloaded
import BoxLayout.Proofs.Snapshot.Survives

namespace BoxLayout

-- Captures as text and back. The text has no spelling for infinities and not-a-number:
-- what holds one is written all the same, and is not read.

namespace Single

theorem survives_of_reread? {x y : Single} (read : x.reread? = some y) : x.Survives := by
  cases x with
  | nan => cases read
  | infinite negative => cases read
  | finite => exact survives_iff_isFinite.mpr trivial

end Single

open Json

theorem PerAxis.survives_of_read {pair other : PerAxis Single} (read : pair? (ofPair pair) = some other) :
    ∀ x ∈ pair.toList, x.Survives := by
  simp only [pair?_ofPair_eq,Option.bind_eq_some_iff] at read
  obtain ⟨x,first,y,second,_⟩ := read
  simp only [toList,List.forall_mem_cons]
  exact ⟨Single.survives_of_reread? first,Single.survives_of_reread? second,List.forall_mem_nil _⟩

theorem Spacing.survives_of_read {s other : Spacing} (read : ofJson? s.toJson = some other) : ∀ x ∈ s.sides, x.Survives := by
  simp only [ofJson?_toJson_eq,Option.bind_eq_some_iff] at read
  obtain ⟨l,left,t,top,r,right,b,bottom,_⟩ := read
  simp only [sides,List.forall_mem_cons]
  exact ⟨Single.survives_of_reread? left,Single.survives_of_reread? top,Single.survives_of_reread? right,
    Single.survives_of_reread? bottom,List.forall_mem_nil _⟩

theorem Rect.survives_of_read {r other : Rect} (read : ofJson? r.toJson = some other) : ∀ x ∈ r.numbers, x.Survives := by
  simp only [ofJson?_toJson_eq,Option.bind_eq_some_iff] at read
  obtain ⟨p,position,e,size,_⟩ := read
  simp only [numbers,List.forall_mem_append]
  exact ⟨PerAxis.survives_of_read position,PerAxis.survives_of_read size⟩

theorem Node.survives_of_read {node other : Node} (read : ofJson? node.toJson = some other) :
    ∀ x ∈ node.numbers, x.Survives := by
  simp only [ofJson?_toJson_eq,Option.bind_eq_some_iff] at read
  obtain ⟨m,margins,p,padding,f,fixedSize,least,minimumSize,most,maximumSize,q,floatingPosition,r,rect,_⟩ := read
  simp only [numbers,List.forall_mem_append]
  exact ⟨⟨⟨⟨⟨⟨Spacing.survives_of_read margins,Spacing.survives_of_read padding⟩,PerAxis.survives_of_read fixedSize⟩,
    PerAxis.survives_of_read minimumSize⟩,PerAxis.survives_of_read maximumSize⟩,PerAxis.survives_of_read floatingPosition⟩,
    Rect.survives_of_read rect⟩

namespace Snapshot
variable {s t : Snapshot}

theorem survives_of_parse? (read : parse? s.print = some t) : s.Survives := by
  simp only [parse?_print_eq,ofJson?_toJson_eq,Option.bind_eq_some_iff] at read
  obtain ⟨nodes,each,_⟩ := read
  simp only [nodes?,mapM_eq_some,List.forall₂_map_left_iff] at each
  intro node member
  obtain ⟨other,_,read⟩ := Tree.related_of_mem each.flip member
  exact Node.survives_of_read read

theorem eq_of_parse? (read : parse? s.print = some t) : t = s := by
  rw [parse?_print _ (survives_of_parse? read)] at read
  exact (Option.some.inj read).symm

end Snapshot

namespace Box

def given (b : Box) : List Single :=
  b.margins.sides ++ b.padding.sides ++ b.fixedSize.toList ++ b.minimumSize.toList ++ b.maximumSize.toList ++
    b.floatingPosition.toList

def numbers (b : Box) : List Single := b.given ++ b.rect.numbers

variable {a b : Box}

theorem SameInputs.given_eq (same : SameInputs a b) : b.given = a.given := by
  unfold given
  rw [same.margins,same.padding,same.fixedSize,same.minimumSize,same.maximumSize,same.floatingPosition]

theorem isFinite_given_new : ∀ x ∈ new.given, x.IsFinite := by decide

end Box

open Forest

theorem Forest.isFinite_fixedAt {x : Single} (finite : x.IsFinite) : (fixedAt x).IsFinite := by
  unfold fixedAt
  split
  · exact finite
  · decide

namespace Command
variable {f g : Forest} {command : Command} {b : Box} {set : Box → Box}

def numbers : Command → List Single
  | .setSize _ pair | .setMinimumSize _ pair | .setMaximumSize _ pair | .setFloatingPosition _ pair => pair.toList
  | .setMargins _ spacing | .setPadding _ spacing => spacing.sides
  | .setRect _ rect => rect.numbers
  | _ => []

theorem isFinite_setting (named : command.setting? = some set) (finite : ∀ x ∈ command.numbers, x.IsFinite)
    (before : ∀ x ∈ b.given, x.IsFinite) : ∀ x ∈ (set b).given, x.IsFinite := by
  simp only [Box.given,List.forall_mem_append] at before ⊢
  obtain ⟨⟨⟨⟨⟨margins,padding⟩,fixedSize⟩,minimumSize⟩,maximumSize⟩,floatingPosition⟩ := before
  cases command with
  | setContainerFlags | setLayoutFlags | setRect =>
      cases named
      exact ⟨⟨⟨⟨⟨margins,padding⟩,fixedSize⟩,minimumSize⟩,maximumSize⟩,floatingPosition⟩
  | setSize key size =>
      cases named
      have kept : ∀ x ∈ (size.map fixedAt).toList, x.IsFinite := by
        simp only [numbers,PerAxis.toList,PerAxis.map,List.forall_mem_cons] at finite ⊢
        exact ⟨isFinite_fixedAt finite.1,isFinite_fixedAt finite.2.1,List.forall_mem_nil _⟩
      exact ⟨⟨⟨⟨⟨margins,padding⟩,kept⟩,minimumSize⟩,maximumSize⟩,floatingPosition⟩
  | setMinimumSize =>
      cases named
      exact ⟨⟨⟨⟨⟨margins,padding⟩,fixedSize⟩,finite⟩,maximumSize⟩,floatingPosition⟩
  | setMaximumSize =>
      cases named
      exact ⟨⟨⟨⟨⟨margins,padding⟩,fixedSize⟩,minimumSize⟩,finite⟩,floatingPosition⟩
  | setMargins =>
      cases named
      exact ⟨⟨⟨⟨⟨finite,padding⟩,fixedSize⟩,minimumSize⟩,maximumSize⟩,floatingPosition⟩
  | setPadding =>
      cases named
      exact ⟨⟨⟨⟨⟨margins,finite⟩,fixedSize⟩,minimumSize⟩,maximumSize⟩,floatingPosition⟩
  | setFloatingPosition =>
      cases named
      exact ⟨⟨⟨⟨⟨margins,padding⟩,fixedSize⟩,minimumSize⟩,maximumSize⟩,finite⟩
  | _ => cases named

-- Of the numbers that are captured, layouts write those of rects only.
theorem isFinite_given (linked : f.Linked) (each : ∀ key, ∀ x ∈ (f.box key).given, x.IsFinite)
    (finite : ∀ x ∈ command.numbers, x.IsFinite) (done : command.apply f = .ok g) (key : Key) :
    ∀ x ∈ (g.box key).given, x.IsFinite := by
  by_cases lays : command.laysOut
  · rw [(inputs_laidOut done lays key).given_eq]
    exact each key
  · rcases box_cases linked done (eq_false_of_ne_true lays) key with same | fresh | ⟨set,named,changed⟩
    · rw [same]
      exact each key
    · rw [fresh]
      exact Box.isFinite_given_new
    · rw [changed]
      exact isFinite_setting named finite (each key)

end Command

namespace Forest
variable {f : Forest} {commands : List Command}

theorem isFinite_given_after (finite : ∀ command ∈ commands, ∀ x ∈ command.numbers, x.IsFinite) (key : Key) :
    ∀ x ∈ ((after commands).box key).given, x.IsFinite := by
  induction commands using List.reverseRecOn generalizing key with
  | nil => exact (box_initial key).symm ▸ Box.isFinite_given_new
  | append_singleton commands command ih =>
      simp only [List.forall_mem_append,List.forall_mem_singleton] at finite
      rw [after_concat]
      unfold perform
      split
      · rename_i done
        exact command.isFinite_given (reachable_after commands).linked (ih finite.1) finite.2 done key
      · exact ih finite.1 key

theorem survives_capture (linked : f.Linked) :
    f.capture.Survives ↔ ∀ key ∈ f.keys, ∀ x ∈ (f.box key).numbers, x.IsFinite := by
  simp only [Snapshot.Survives,nodes_capture,List.forall_mem_map,Single.survives_iff_isFinite,(captureOrder_perm linked).mem_iff]
  rfl

def Loads (f : Forest) : Prop := ∃ s g, Snapshot.parse? f.capture.print = some s ∧ s.restore = .ok g

theorem loads_iff_survives (path : f.Reachable) (recordable : f.Recordable) : f.Loads ↔ f.capture.Survives := by
  constructor
  · rintro ⟨_,_,read,_⟩
    exact Snapshot.survives_of_parse? read
  · intro survives
    obtain ⟨g,restored⟩ := (wellFormed_capture path recordable).restores
    exact ⟨f.capture,g,Snapshot.parse?_print _ survives,restored⟩

theorem reloads_of_parse? {s : Snapshot} (path : f.Reachable) (recordable : f.Recordable)
    (read : Snapshot.parse? f.capture.print = some s) : s = f.capture ∧ ∃ g, s.restore = .ok g ∧ f.Reloads g := by
  cases Snapshot.eq_of_parse? read
  obtain ⟨g,restored⟩ := (wellFormed_capture path recordable).restores
  exact ⟨rfl,g,restored,.of_describes path recordable (Snapshot.describes_of_restore restored)⟩

-- A captured tree is written whatever its numbers are, and loaded exactly when they are all finite; then it is
-- the tree that was captured. Finite numbers in calls stay finite, so no more than an overflow in a rect is in
-- the way of it.
theorem loads_iff (recordable : (after commands).Recordable) :
    ((after commands).Loads ↔ ∀ key ∈ (after commands).keys, ∀ x ∈ ((after commands).box key).numbers, x.IsFinite) ∧
      (∀ s, Snapshot.parse? (after commands).capture.print = some s →
        s = (after commands).capture ∧ ∃ g, s.restore = .ok g ∧ (after commands).Reloads g) ∧
      ((∀ command ∈ commands, ∀ x ∈ command.numbers, x.IsFinite) →
        ((after commands).Loads ↔
          ∀ key ∈ (after commands).keys, ∀ x ∈ ((after commands).box key).rect.numbers, x.IsFinite)) := by
  have path := reachable_after commands
  have loads := (loads_iff_survives path recordable).trans (survives_capture path.linked)
  refine ⟨loads,fun _ => reloads_of_parse? path recordable,?_⟩
  intro finite
  rw [loads]
  refine forall₂_congr fun key _ => ?_
  simp only [Box.numbers,List.forall_mem_append]
  exact and_iff_right (isFinite_given_after finite key)

def overlong : List Command :=
  [.setContainerFlags .root (.ofWord 1),.createChild .root,.setSize ⟨1⟩ ⟨300000000000000000000000000000000000000,10⟩,
    .createChild .root,.setSize ⟨2⟩ ⟨300000000000000000000000000000000000000,10⟩]

theorem loads_iff_overlong :
    (∀ command ∈ overlong ++ [.update], ∀ x ∈ command.numbers, x.IsFinite) ∧
      (after overlong).Recordable ∧ (after overlong).Loads ∧
      (after (overlong ++ [.update])).Recordable ∧ ¬(after (overlong ++ [.update])).Loads := by
  have finite : ∀ command ∈ overlong ++ [.update], ∀ x ∈ command.numbers, x.IsFinite := by decide +kernel
  have before : (after overlong).Recordable := recordable_of_checked (by decide +kernel) (by decide +kernel)
  have updated : (after (overlong ++ [.update])).Recordable := recordable_of_checked (by decide +kernel) (by decide +kernel)
  refine ⟨finite,before,?_,updated,?_⟩
  · exact (loads_iff before).1.mpr (by decide +kernel)
  · rw [(loads_iff updated).2.2 finite]
    decide +kernel

-- A maximum without a limit is captured, and written as null.
def boundless : List Command := [.setMaximumSize .root (.both (.infinite false))]

theorem loads_fails : ¬∀ commands, (after commands).Recordable → (after commands).Loads := by
  intro always
  have recordable : (after boundless).Recordable := recordable_of_checked (by decide +kernel) (by decide +kernel)
  have path := reachable_after boundless
  have infinite : ¬∀ key ∈ (after boundless).keys, ∀ x ∈ ((after boundless).box key).numbers, x.IsFinite := by
    decide +kernel
  rw [← survives_capture path.linked,← loads_iff_survives path recordable] at infinite
  exact infinite (always boundless recordable)

end Forest
end BoxLayout
