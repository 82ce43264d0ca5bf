import BoxLayout.Proofs.Forest.Restored
import BoxLayout.Proofs.Snapshot.Attached
import BoxLayout.Proofs.Snapshot.Settled

namespace BoxLayout

-- Which snapshots are restored, and to what.

namespace LayoutFlags
open Flags

def internalWord : Word := fixedWord .x ||| fixedWord .y ||| bit 9 true

theorem getLsbD_internalWord : ∀ i, i < 32 → internalWord.getLsbD i = (decide (i = 4) || decide (i = 6) || decide (i = 9)) := by
  decide

theorem toWord_marked (word : Word) (fixed : PerAxis Bool) :
    ({ LayoutFlags.ofWord word with fixed := fixed, isBreak := false } : LayoutFlags).toWord =
      word &&& ~~~internalWord ||| bit 4 fixed.x ||| bit 6 fixed.y := by
  apply BitVec.eq_of_getLsbD_eq
  intro i bounded
  have same : (ofWord word).toWord.getLsbD i = word.getLsbD i := by rw [toWord_ofWord]
  have clear := getLsbD_outside _ _ (ofWord word).undefined_outside
  rw [getLsbD_toWord _ _ bounded] at same ⊢
  simp only [BitVec.getLsbD_or,BitVec.getLsbD_and,BitVec.getLsbD_not,bounded,getLsbD_internalWord i bounded,
    getLsbD_bit _ _ _ bounded,decide_true,Bool.true_and]
  by_cases width : i = 4
  · subst i
    rw [clear 4 (by decide)]
    simp
  by_cases height : i = 6
  · subst i
    rw [clear 6 (by decide)]
    simp
  by_cases broke : i = 9
  · subst i
    rw [clear 9 (by decide)]
    simp
  simpa [width,height,broke] using same

end LayoutFlags

namespace Snapshot

theorem size_blank (more : Nat) : (blank more).size = more + 1 := by
  induction more with
  | zero => rfl
  | succ more ih => rw [blank,Forest.size_create,ih]

theorem links_blank (more : Nat) (key : Key) : (blank more).links key = .none := by
  induction more with
  | zero => exact Forest.links_new key
  | succ more ih => rw [blank,Forest.links_create,ih]

theorem box_blank (more : Nat) (key : Key) : (blank more).box key = .new := by
  induction more with
  | zero =>
      by_cases present : Forest.new.Contains key
      · rw [Forest.contains_new.mp present]
        rfl
      · simp only [blank,Forest.box,Forest.controls_of_missing present]
  | succ more ih => rw [blank,Forest.box_create,ih]

-- Keys numbered through, words a control can have, and parents that are there, for
-- any control but the root and never for themselves. Cycles are not excluded.
structure WellFormed (s : Snapshot) : Prop where
  version : s.version = snapshotVersion
  keys : (s.nodes.map Node.key?).Perm ((List.range s.nodes.length).map fun index => some ⟨index⟩)
  rooted : 1 ≤ s.nodes.length
  words : ∀ node ∈ s.nodes, node.Worded
  parents : ∀ node ∈ s.nodes, ∀ parent, node.parent? = some parent →
    parent.index < s.nodes.length ∧ node.handle ≠ .root ∧ parent ≠ node.handle

end Snapshot

structure Node.Restored (f : Forest) (node : Node) : Prop where
  key : f.keyOf node.handle = some node.handle
  parent : (f.links node.handle).parent = node.parent?
  container : (f.box node.handle).container.toWord = node.containerFlags
  flags : (f.box node.handle).flags.toWord = (node.layoutFlags &&& ~~~LayoutFlags.internalWord) |||
    (if 0 < node.fixedSize.x then LayoutFlags.fixedWord .x else 0) |||
    (if 0 < node.fixedSize.y then LayoutFlags.fixedWord .y else 0)
  fixedSize : ∀ axis, (f.box node.handle).fixedSize.get axis =
    if 0 < node.fixedSize.get axis then node.fixedSize.get axis else unset
  margins : (f.box node.handle).margins = node.margins
  padding : (f.box node.handle).padding = node.padding
  minimumSize : (f.box node.handle).minimumSize = node.minimumSize
  maximumSize : (f.box node.handle).maximumSize = node.maximumSize
  floatingPosition : (f.box node.handle).floatingPosition = node.floatingPosition
  contentSize : (f.box node.handle).contentSize = .both 0
  rect : (f.box node.handle).rect = node.rect
  tag : f.tag node.handle = node.tag

theorem Node.settled_new (node : Node) :
    (node.settled .new).container.toWord = node.containerFlags ∧
      (node.settled .new).flags.toWord = (node.layoutFlags &&& ~~~LayoutFlags.internalWord) |||
        (if 0 < node.fixedSize.x then LayoutFlags.fixedWord .x else 0) |||
        (if 0 < node.fixedSize.y then LayoutFlags.fixedWord .y else 0) ∧
      (node.settled .new).contentSize = .both 0 := by
  have kept : (node.contained .new).flags = .empty ∧ (node.contained .new).contentSize = .both 0 := by
    unfold contained
    split
    · exact ⟨rfl,rfl⟩
    · exact ⟨rfl,rfl⟩
  refine ⟨?_,?_,kept.2⟩
  · change (node.contained .new).container.toWord = _
    unfold contained
    split
    · rename_i unset
      rw [unset]
      exact ContainerFlags.toWord_ofWord 0
    · exact ContainerFlags.toWord_ofWord _
  · have flags : (node.settled .new).flags = { LayoutFlags.ofWord node.layoutFlags with
        fixed := node.fixedSize.map fun component => decide (0 < component), isBreak := false } := by
      unfold settled adjusted
      rw [kept.1]
      rfl
    have marked : ∀ position (size : Single), Flags.bit position (decide (0 < size)) =
        if 0 < size then Flags.bit position true else 0 := by
      intro position size
      by_cases positive : 0 < size
      · simp [positive]
      · simp [positive,Flags.bit]
    rw [flags,LayoutFlags.toWord_marked]
    exact congrArg₂ (fun width height => node.layoutFlags &&& ~~~LayoutFlags.internalWord ||| width ||| height)
      (marked 4 node.fixedSize.x) (marked 6 node.fixedSize.y)

theorem Node.restored_of {f : Forest} {node : Node} (own : f.keyOf node.handle = some node.handle)
    (parent : (f.links node.handle).parent = node.parent?) (box : f.box node.handle = node.settled .new)
    (tag : f.tag node.handle = node.tag) : node.Restored f := by
  obtain ⟨container,flags,content⟩ := node.settled_new
  rw [← box] at container flags content
  refine ⟨own,parent,container,flags,?_,?_,?_,?_,?_,?_,content,?_,tag⟩
  all_goals rw [box]
  · intro axis
    cases axis <;> rfl
  all_goals rfl

structure Snapshot.Describes (s : Snapshot) (f : Forest) : Prop where
  linked : f.Linked
  size : f.size = s.nodes.length
  controls : ∀ node ∈ s.nodes, node.Restored f
  children : ∀ key, f.children key = (s.nodes.filter fun node => node.parent? = some key).map Node.handle

namespace Snapshot
variable {s : Snapshot} {f : Forest}

theorem restore_ok : s.restore = .ok f ↔ s.version = snapshotVersion ∧ strayKey? s.nodes.length [] s.nodes = none ∧
    s.nodes ≠ [] ∧ ∃ g, s.nodes.foldlM Node.settle (blank (s.nodes.length - 1)) = .ok g ∧ s.nodes.foldlM Node.attach g = .ok f := by
  unfold restore
  by_cases version : s.version = snapshotVersion
  · simp only [version,ne_eq,not_true_eq_false,if_false,true_and]
    cases stray : strayKey? s.nodes.length [] s.nodes with
    | some key => exact ⟨nofun,nofun⟩
    | none =>
        by_cases rootless : s.nodes = []
        · simp only [rootless,if_true]
          exact ⟨nofun,nofun⟩
        · simp only [rootless,if_false,true_and,not_false_eq_true]
          exact Result.bind_ok
  · simp only [version,ne_eq,not_false_eq_true,if_true]
    exact ⟨nofun,nofun⟩

theorem contains_blank (numbered : strayKey? s.nodes.length [] s.nodes = none) :
    ∀ node ∈ s.nodes, (blank (s.nodes.length - 1)).Contains node.handle := by
  intro node member
  have inside := ((strayKey?_eq_none.mp numbered).1 node member).2.1
  change node.handle.index < (blank (s.nodes.length - 1)).size
  rw [size_blank]
  omega

-- Once the nodes are settled only their parents are left to check, and what comes
-- out is what the snapshot says.
theorem attach_settled (numbered : strayKey? s.nodes.length [] s.nodes = none) (rooted : s.nodes ≠ []) :
    ((∃ f, s.nodes.foldlM Node.attach ((blank (s.nodes.length - 1)).putAll s.nodes) = .ok f) ↔
      ∀ node ∈ s.nodes, ∀ parent, node.parent? = some parent →
        parent.index < s.nodes.length ∧ node.handle ≠ .root ∧ parent ≠ node.handle) ∧
      ∀ f, s.nodes.foldlM Node.attach ((blank (s.nodes.length - 1)).putAll s.nodes) = .ok f → s.Describes f := by
  have present := contains_blank numbered
  have distinct := (strayKey?_eq_none.mp numbered).2
  have same := Forest.sameLinks_putAll (blank (s.nodes.length - 1)) s.nodes
  have settled : ∀ node ∈ s.nodes, ((blank (s.nodes.length - 1)).putAll s.nodes).box node.handle =
      node.settled ((blank (s.nodes.length - 1)).box node.handle) ∧
      ((blank (s.nodes.length - 1)).putAll s.nodes).tag node.handle = node.tag :=
    fun _ member => Forest.putAll_member present distinct member
  have size : ((blank (s.nodes.length - 1)).putAll s.nodes).size = s.nodes.length := by
    have positive := List.length_pos_iff.mpr rooted
    rw [same.size_eq,size_blank]
    omega
  have bare : ∀ key, ((blank (s.nodes.length - 1)).putAll s.nodes).links key = .none := fun key =>
    (same.links_eq key).trans (links_blank _ key)
  have linked := same.linked (blank_reachable (s.nodes.length - 1)).linked
  generalize (blank (s.nodes.length - 1)).putAll s.nodes = g at *
  have free : ∀ node ∈ s.nodes, (g.links node.handle).parent = none := by
    intro node _
    rw [bare]
    rfl
  obtain ⟨accepted,attached⟩ := Node.attachAll_ok linked (fun node member => (same.contains_iff _).mpr (present node member)) distinct free
  refine ⟨?_,fun f done => ?_⟩
  · rw [accepted]
    simp only [Node.Placeable,Forest.Contains,size]
  · have attachment := attached f done
    refine ⟨attachment.linked,attachment.size_eq.trans size,?_,?_⟩
    · intro node member
      obtain ⟨box,tag⟩ := settled node member
      rw [box_blank,← attachment.box_eq] at box
      rw [← attachment.tag_eq] at tag
      have inside : f.Contains node.handle := by
        simp only [Forest.Contains,attachment.size_eq]
        exact (same.contains_iff _).mpr (present node member)
      exact Node.restored_of (attachment.linked.own_key _ inside) (attachment.parent node member) box tag
    · intro key
      rw [attachment.children,Forest.children_of_bare (bare key),List.nil_append]

-- Of all snapshots exactly the well-formed ones are restored, and each to what it says.
theorem restore_accepts (s : Snapshot) :
    ((∃ f, s.restore = .ok f) ↔ s.WellFormed) ∧ ∀ f, s.restore = .ok f → s.Describes f := by
  have settled : ∀ {f}, s.restore = .ok f → strayKey? s.nodes.length [] s.nodes = none ∧ s.nodes ≠ [] ∧
      (∀ node ∈ s.nodes, node.Worded) ∧
      s.nodes.foldlM Node.attach ((blank (s.nodes.length - 1)).putAll s.nodes) = .ok f := by
    intro f done
    obtain ⟨_,numbered,rooted,g,settled,attached⟩ := restore_ok.mp done
    obtain ⟨worded,rfl⟩ := (Forest.settleAll_ok (contains_blank numbered)).mp settled
    exact ⟨numbered,rooted,worded,attached⟩
  constructor
  · constructor
    · rintro ⟨f,done⟩
      obtain ⟨numbered,rooted,worded,attached⟩ := settled done
      exact ⟨(restore_ok.mp done).1,strayKey?_perm.mp numbered,List.length_pos_iff.mpr rooted,worded,
        (attach_settled numbered rooted).1.mp ⟨f,attached⟩⟩
    · intro formed
      have numbered := strayKey?_perm.mpr formed.keys
      have rooted := List.length_pos_iff.mp formed.rooted
      obtain ⟨f,attached⟩ := (attach_settled numbered rooted).1.mpr formed.parents
      exact ⟨f,restore_ok.mpr ⟨formed.version,numbered,rooted,_,
        (Forest.settleAll_ok (contains_blank numbered)).mpr ⟨formed.words,rfl⟩,attached⟩⟩
  · intro f done
    obtain ⟨numbered,rooted,_,attached⟩ := settled done
    exact (attach_settled numbered rooted).2 f attached

def twisted : Snapshot where
  version := 1
  nodes :=
    [{ Node.plain 3 with parent := 1, layoutFlags := 0x213, fixedSize := ⟨0,5⟩ },{ Node.plain 1 with parent := 3 },
      { Node.plain 0 with containerFlags := 2 },{ Node.plain 2 with parent := 0 }]

theorem wellFormed_twisted : twisted.WellFormed where
  version := rfl
  keys := by decide
  rooted := by decide
  words node member := by
    have checked : ∀ node ∈ twisted.nodes, (ContainerFlags.ofWord node.containerFlags).Defined ∧
        (node.containerFlags = 0 ∨ (ContainerFlags.ofWord node.containerFlags).Directed) ∧
        (LayoutFlags.ofWord node.layoutFlags).Defined := by decide
    obtain ⟨container,directed,layout⟩ := checked node member
    exact ⟨container,directed,layout⟩
  parents node member parent named := by
    have checked : ∀ node ∈ twisted.nodes, ∀ parent ∈ node.parent?.toList,
        parent.index < twisted.nodes.length ∧ node.handle ≠ .root ∧ parent ≠ node.handle := by decide
    exact checked node member parent (Option.mem_toList.mpr named)

theorem restore_accepts_twisted :
    twisted.WellFormed ∧ ∃ f, twisted.restore = .ok f ∧ twisted.Describes f ∧ f.children ⟨1⟩ = [⟨3⟩] ∧
      f.children ⟨3⟩ = [⟨1⟩] ∧ (f.box ⟨3⟩).flags.toWord = 0x43 := by
  obtain ⟨accepted,described⟩ := restore_accepts twisted
  obtain ⟨f,done⟩ := accepted.mpr wellFormed_twisted
  have describes := described f done
  refine ⟨wellFormed_twisted,f,done,describes,?_,?_,?_⟩
  · rw [describes.children]
    decide
  · rw [describes.children]
    decide
  · have told := (describes.controls _ (List.mem_cons_self (l := twisted.nodes.tail))).flags
    exact told

end Snapshot
end BoxLayout
