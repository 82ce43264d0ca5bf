import BoxLayout.Proofs.Forest.Reachable

namespace BoxLayout

-- What the nodes of a snapshot set on their controls, a node on a control.

namespace Node

structure Worded (node : Node) : Prop where
  container : (ContainerFlags.ofWord node.containerFlags).Defined
  directed : node.containerFlags = 0 ∨ (ContainerFlags.ofWord node.containerFlags).Directed
  layout : (LayoutFlags.ofWord node.layoutFlags).Defined

def contained (node : Node) (b : Box) : Box :=
  if node.containerFlags = 0 then b else { b with container := .ofWord node.containerFlags }

def adjusted (node : Node) (b : Box) : Box :=
  { b with
    flags :=
      { (LayoutFlags.ofWord node.layoutFlags).withMarkersOf b.flags with
        fixed := node.fixedSize.map fun component => decide (0 < component) }
    margins := node.margins
    padding := node.padding
    fixedSize := node.fixedSize.map Forest.fixedAt
    minimumSize := node.minimumSize
    maximumSize := node.maximumSize
    floatingPosition := node.floatingPosition
    rect := node.rect }

def settled (node : Node) (b : Box) : Box := node.adjusted (node.contained b)

end Node

namespace Forest
variable {f g : Forest} {key other : Key} {change : Box → Box} {node : Node} {nodes : List Node}

def put (f : Forest) (node : Node) : Forest :=
  f.edit node.handle fun control => { control with tag := node.tag, box := node.settled control.box }

theorem edit_edit (f : Forest) (key : Key) (first second : Control → Control) :
    (f.edit key first).edit key second = f.edit key (second ∘ first) := by
  apply eq_of_controls
  intro at_key
  simp only [controls_edit]
  split
  · rw [Option.map_map]
  · rfl

theorem contains_edit (f : Forest) (key other : Key) (change : Control → Control) :
    (f.edit key change).Contains other ↔ f.Contains other := by
  simp only [Contains,size_edit]

theorem modifyBox_of_contains (present : f.Contains key) : f.modifyBox key change = .ok (f.editBox key change) := by
  unfold modifyBox
  rw [validate_of_contains present]
  rfl

theorem setTag_of_contains (present : f.Contains key) (tag : Word) :
    f.setTag key tag = .ok (f.edit key ({ · with tag := tag })) := by
  unfold setTag
  rw [validate_of_contains present]
  rfl

theorem contain_eq (present : f.Contains node.handle) (set : ¬node.containerFlags = 0)
    (directed : (ContainerFlags.ofWord node.containerFlags).Directed) :
    f.setContainerFlags node.handle (.ofWord node.containerFlags) = .ok (f.editBox node.handle node.contained) := by
  have changed : node.contained = ({ · with container := .ofWord node.containerFlags }) := funext fun b => if_neg set
  unfold setContainerFlags
  rw [if_pos directed,modifyBox_of_contains present,changed]

theorem adjust_eq (present : f.Contains node.handle) :
    (f.setLayoutFlags node.handle (.ofWord node.layoutFlags) >>= fun f => f.setSize node.handle node.fixedSize >>= fun f =>
      f.setMinimumSize node.handle node.minimumSize >>= fun f => f.setMaximumSize node.handle node.maximumSize >>= fun f =>
      f.setMargins node.handle node.margins >>= fun f => f.setPadding node.handle node.padding >>= fun f =>
      f.setFloatingPosition node.handle node.floatingPosition >>= fun f => f.setTag node.handle node.tag >>= fun f =>
      f.setRect node.handle node.rect) =
    .ok (f.edit node.handle fun control => { control with tag := node.tag, box := node.adjusted control.box }) := by
  simp only [setLayoutFlags,setSize,setMinimumSize,setMaximumSize,setMargins,setPadding,setFloatingPosition,setRect,
    modifyBox_of_contains,setTag_of_contains,editBox,contains_edit,present,Result.ok_bind,edit_edit,Function.comp_def,Node.adjusted]

theorem settle_ok (present : f.Contains node.handle) : node.settle f = .ok g ↔ node.Worded ∧ g = f.put node := by
  have accepted : node.Worded → ((.ok (f.put node) : Result Forest) = .ok g ↔ node.Worded ∧ g = f.put node) := by
    intro worded
    constructor
    · intro done
      exact ⟨worded,(Except.ok.inj done).symm⟩
    · rintro ⟨_,rfl⟩
      rfl
  unfold Node.settle
  dsimp only
  by_cases defined : (ContainerFlags.ofWord node.containerFlags).Defined
  · rw [if_neg (not_not.mpr defined)]
    by_cases layout : (LayoutFlags.ofWord node.layoutFlags).Defined
    · simp only [if_neg (not_not.mpr layout)]
      split
      · rename_i unset
        have same : node.settled = node.adjusted := funext fun b => congrArg node.adjusted (if_pos unset)
        rw [pure_bind,adjust_eq present,← same]
        exact accepted ⟨defined,.inl unset,layout⟩
      · rename_i set
        by_cases directed : (ContainerFlags.ofWord node.containerFlags).Directed
        · rw [contain_eq present set directed,Result.ok_bind,editBox,adjust_eq ((contains_edit ..).mpr present),edit_edit]
          exact accepted ⟨defined,.inr directed,layout⟩
        · have refused : f.setContainerFlags node.handle (.ofWord node.containerFlags) = .error _ := if_neg directed
          rw [refused]
          constructor
          · intro done
            cases done
          · rintro ⟨worded,_⟩
            exact absurd (worded.directed.resolve_left set) directed
    · simp only [if_pos layout]
      constructor
      · intro done
        split at done
        · cases done
        · obtain ⟨_,_,done⟩ := Result.bind_ok.mp done
          cases done
      · rintro ⟨worded,_⟩
        exact absurd worded.layout layout
  · rw [if_pos defined]
    constructor
    · intro done
      cases done
    · rintro ⟨worded,_⟩
      exact absurd worded.container defined

theorem sameLinks_put (f : Forest) (node : Node) : SameLinks f (f.put node) :=
  sameLinks_edit _ _ _ (fun _ => rfl) fun _ => rfl

theorem contains_put (present : ∀ other ∈ node :: nodes, f.Contains other.handle) :
    ∀ other ∈ nodes, (f.put node).Contains other.handle := fun other later =>
  ((sameLinks_put f node).contains_iff _).mpr (present other (List.mem_cons_of_mem _ later))

theorem box_put (present : f.Contains node.handle) (key : Key) :
    (f.put node).box key = if node.handle = key then node.settled (f.box key) else f.box key := by
  by_cases same : node.handle = key
  · subst key
    obtain ⟨control,found⟩ := controls_of_contains present
    simp only [box,put,controls_edit,if_true,found,Option.map_some]
  · simp only [box,put,controls_edit,if_neg same]

theorem tag_put (present : f.Contains node.handle) (key : Key) :
    (f.put node).tag key = if node.handle = key then node.tag else f.tag key := by
  by_cases same : node.handle = key
  · subst key
    obtain ⟨control,found⟩ := controls_of_contains present
    simp only [tag,put,controls_edit,if_true,found,Option.map_some]
  · simp only [tag,put,controls_edit,if_neg same]

def putAll (f : Forest) (nodes : List Node) : Forest := nodes.foldl put f

theorem settleAll_ok (present : ∀ node ∈ nodes, f.Contains node.handle) :
    nodes.foldlM Node.settle f = .ok g ↔ (∀ node ∈ nodes, node.Worded) ∧ g = f.putAll nodes := by
  induction nodes generalizing f with
  | nil =>
      constructor
      · intro done
        cases done
        exact ⟨fun _ member => absurd member List.not_mem_nil,rfl⟩
      · rintro ⟨_,rfl⟩
        rfl
  | cons node rest ih =>
      have first := present node List.mem_cons_self
      have still := contains_put present
      rw [List.foldlM_cons,Result.bind_ok,List.forall_mem_cons]
      constructor
      · rintro ⟨next,done,further⟩
        obtain ⟨worded,rfl⟩ := (settle_ok first).mp done
        obtain ⟨others,equal⟩ := (ih still).mp further
        exact ⟨⟨worded,others⟩,equal⟩
      · rintro ⟨⟨worded,others⟩,equal⟩
        exact ⟨_,(settle_ok first).mpr ⟨worded,rfl⟩,(ih still).mpr ⟨others,equal⟩⟩

theorem sameLinks_putAll (f : Forest) (nodes : List Node) : SameLinks f (f.putAll nodes) := by
  induction nodes generalizing f with
  | nil => exact .refl f
  | cons node rest ih => exact (sameLinks_put f node).trans (ih _)

-- A node tells of its own control, whatever the others tell.
theorem putAll_other (present : ∀ node ∈ nodes, f.Contains node.handle) (elsewhere : key ∉ nodes.map Node.handle) :
    (f.putAll nodes).box key = f.box key ∧ (f.putAll nodes).tag key = f.tag key := by
  induction nodes generalizing f with
  | nil => exact ⟨rfl,rfl⟩
  | cons node rest ih =>
      rw [List.map_cons,List.mem_cons,not_or] at elsewhere
      have first := present node List.mem_cons_self
      obtain ⟨box,tag⟩ := ih (contains_put present) elsewhere.2
      refine ⟨box.trans ?_,tag.trans ?_⟩
      · rw [box_put first,if_neg (Ne.symm elsewhere.1)]
      · rw [tag_put first,if_neg (Ne.symm elsewhere.1)]

theorem putAll_member (present : ∀ node ∈ nodes, f.Contains node.handle) (distinct : (nodes.map Node.handle).Nodup)
    (member : node ∈ nodes) :
    (f.putAll nodes).box node.handle = node.settled (f.box node.handle) ∧ (f.putAll nodes).tag node.handle = node.tag := by
  induction nodes generalizing f with
  | nil => cases member
  | cons first rest ih =>
      rw [List.map_cons,List.nodup_cons] at distinct
      have here := present first List.mem_cons_self
      have still := contains_put present
      rcases List.mem_cons.mp member with rfl | later
      · obtain ⟨box,tag⟩ := putAll_other still distinct.1
        refine ⟨box.trans ?_,tag.trans ?_⟩
        · rw [box_put here,if_pos rfl]
        · rw [tag_put here,if_pos rfl]
      · have apart : first.handle ≠ node.handle := fun same => distinct.1 (same ▸ List.mem_map_of_mem later)
        obtain ⟨box,tag⟩ := ih still distinct.2 later
        refine ⟨box.trans ?_,tag⟩
        rw [box_put here,if_neg apart]

end Forest
end BoxLayout
