import BoxLayout.Forest.Query
import BoxLayout.Proofs.Forest.Walked

namespace BoxLayout

-- What is hit under a point is what lies uppermost there: the last of the controls, in the
-- order they are listed and drawn, that the point is on together with all that they lie in.

theorem Tree.hitAny_eq (point : PerAxis Single) (trees : List (Tree (Key × Rect))) :
    hitAny point trees = trees.reverse.findSome? (hit point) := by
  induction trees with
  | nil => rfl
  | cons tree rest ih => rw [hitAny,ih,List.reverse_cons,List.findSome?_append,List.findSome?_singleton]

namespace Forest

variable {f : Forest} {point : PerAxis Single} {top key child : Key} {t : Tree Key} {found : Option Key}

-- The search along the links. A control that the point misses is left at once; of any other
-- the children are tried from the last one backwards, until something is hit in one.
inductive Probes (f : Forest) (point : PerAxis Single) : Key → Option Key → Prop where
  | missed {key : Key} : ¬(f.box key).rect.Contains point → Probes f point key none
  | inside {key child hit : Key} {later : List Key} : (f.box key).rect.Contains point →
      Chain (fun key => (f.links key).previousSibling) (f.links key).lastChild later (some child) →
      (∀ other ∈ later, Probes f point other none) → Probes f point child (some hit) → Probes f point key (some hit)
  | alone {key : Key} {back : List Key} : (f.box key).rect.Contains point →
      Chain (fun key => (f.links key).previousSibling) (f.links key).lastChild back none →
      (∀ child ∈ back, Probes f point child none) → Probes f point key (some key)

def Covered (f : Forest) (point : PerAxis Single) (top key : Key) : Prop :=
  ∀ other, f.Within top other → f.Within other key → (f.box other).rect.Contains point

def hitIn (f : Forest) (point : PerAxis Single) (t : Tree Key) : Option Key :=
  (t.map fun key => (key,(f.box key).rect)).hit point

theorem hitIn_node (trees : List (Tree Key)) : f.hitIn point (.node key trees) =
    if (f.box key).rect.Contains point then some ((trees.reverse.findSome? (f.hitIn point)).getD key) else none := by
  rw [hitIn,Tree.map_node,Tree.hit,Tree.hitAny_eq,← List.map_reverse,List.findSome?_map]
  rfl

theorem hitIn_eq_none : f.hitIn point t = none ↔ ¬(f.box t.value).rect.Contains point := by
  cases t with
  | node key trees =>
      rw [hitIn_node,Tree.value]
      split
      · exact iff_of_false (Option.some_ne_none _) (not_not.mpr ‹_›)
      · exact iff_of_true rfl ‹_›

-- By induction on the outline: a child searched through has nothing, the first that has
-- something ends the search, and the last in order is the first from the back.
theorem Outlines.probes_iff (linked : f.Linked) (outlines : f.Outlines t) (point : PerAxis Single) (found : Option Key) :
    f.Probes point t.value found ↔ f.hitIn point t = found := by
  induction outlines generalizing found with
  | @node key trees listed _ ih =>
      have ih : ∀ tree ∈ trees.reverse, ∀ found, f.Probes point tree.value found ↔ f.hitIn point tree = found :=
        fun tree member => ih tree (List.mem_reverse.mp member)
      have back := linked.backward key
      rw [← listed,← List.map_reverse] at back
      rw [hitIn_node,Tree.value]
      constructor
      · intro probes
        cases probes with
        | missed misses => rw [if_neg misses]
        | @inside _ child hit later holds passed tried within =>
            obtain ⟨rest,order⟩ := passed.ahead back
            obtain ⟨before,others,cut,rfl,further⟩ := List.map_eq_append_iff.mp order
            obtain ⟨tree,others,rfl,rfl,_⟩ := List.map_eq_cons_iff.mp further
            rw [cut] at ih
            have search : trees.reverse.findSome? (f.hitIn point) = some hit := by
              refine List.findSome?_eq_some_iff.mpr ⟨before,tree,others,cut,?_,?_⟩
              · exact (ih tree (by simp) _).mp within
              · exact fun other member => (ih other (List.mem_append_left _ member) _).mp (tried _ (List.mem_map_of_mem member))
            rw [if_pos holds,search]
            rfl
        | alone holds chain tried =>
            cases chain.unique back
            have search : trees.reverse.findSome? (f.hitIn point) = none := by
              refine List.findSome?_eq_none_iff.mpr fun tree member => ?_
              exact (ih tree member _).mp (tried _ (List.mem_map_of_mem member))
            rw [if_pos holds,search]
            rfl
      · rintro rfl
        split
        · rename_i holds
          cases search : trees.reverse.findSome? (f.hitIn point) with
          | none =>
              refine .alone holds back (List.forall_mem_map.mpr fun tree member => ?_)
              exact (ih tree member _).mpr (List.findSome?_eq_none_iff.mp search tree member)
          | some hit =>
              obtain ⟨passed,tree,others,order,within,tried⟩ := List.findSome?_eq_some_iff.mp search
              rw [order] at ih back
              rw [List.map_append] at back
              obtain ⟨middle,before,here,_⟩ := Chain.append_iff.mp back
              cases here
              refine .inside holds before (List.forall_mem_map.mpr fun other member => ?_) ((ih tree (by simp) _).mpr within)
              exact (ih other (List.mem_append_left _ member) _).mpr (tried other member)
        · exact .missed ‹_›

theorem covered_self (acyclic : f.Acyclic top) : f.Covered point top top ↔ (f.box top).rect.Contains point := by
  refine ⟨fun covered => covered top .self .self,fun holds other below above => ?_⟩
  cases above with
  | self => exact holds
  | child under above => exact absurd ⟨_,under,below.trans above⟩ acyclic

theorem covered_child (acyclic : f.Acyclic top) (holds : (f.box top).rect.Contains point) (under : (f.links child).parent = some top)
    (inside : f.Within child key) : f.Covered point top key ↔ f.Covered point child key := by
  constructor
  · exact fun covered other below above => covered other (Within.trans (.child under .self) below) above
  · intro covered other below above
    rcases below.down with rfl | ⟨next,under',below⟩
    · exact holds
    · cases Within.same_child acyclic under under' inside (below.trans above)
      exact covered other below above

open scoped Classical in
theorem Outlines.hitIn_eq (linked : f.Linked) (outlines : f.Outlines t) (acyclic : f.Acyclic t.value) (point : PerAxis Single) :
    f.hitIn point t = (t.preorder.filter (f.Covered point t.value)).getLast? := by
  induction outlines with
  | @node key trees listed below ih =>
      have under : ∀ tree ∈ trees, (f.links tree.value).parent = some key := fun tree member =>
        linked.mem_children.mp (listed ▸ List.mem_map_of_mem member)
      rw [hitIn_node]
      split
      · rename_i holds
        have each : trees.map (f.hitIn point) =
            trees.map fun tree => (tree.preorder.filter (f.Covered point key)).getLast? := by
          refine List.map_congr_left fun tree member => ?_
          rw [ih tree member (acyclic.of_parent (under tree member))]
          refine congrArg List.getLast? (List.filter_congr fun other listed => ?_)
          have inside := ((below tree member).mem_preorder linked).mp listed
          exact decide_eq_decide.mpr (covered_child acyclic holds (under tree member) inside).symm
        have search := congrArg (fun found => found.reverse.findSome? id) each
        simp only [← List.map_reverse,List.findSome?_map] at search
        have first : decide (f.Covered point key key) = true := decide_eq_true ((covered_self acyclic).mpr holds)
        have same : (Tree.node key trees).preorder.filter (f.Covered point key) =
            key :: trees.flatMap fun tree => tree.preorder.filter (f.Covered point key) := by
          rw [Tree.preorder_node,List.filter_cons,if_pos first,List.filter_flatMap]
        rw [Tree.value,same,List.getLast?_cons,List.getLast?_flatMap]
        exact congrArg (fun found => some (Option.getD found key)) search
      · rename_i misses
        have none : (Tree.node key trees).preorder.filter (f.Covered point key) = [] := by
          refine List.filter_eq_nil_iff.mpr fun other member covered => ?_
          have inside := (Outlines.mem_preorder linked (.node listed below)).mp member
          exact misses (of_decide_eq_true covered key .self inside)
        exact (congrArg List.getLast? none).symm

-- Wherever the rectangles are, set or laid out, and whatever overlaps or overflows: the search
-- from an attached control ends and is the one along the links; it finds nothing where the
-- control itself is missed, and otherwise the last in the listing from there that the point is
-- on, with all between; from the root it is the search in the whole.
open scoped Classical in
theorem hitTest_uppermost (path : f.Reachable) (attached : f.Attached key) (point : PerAxis Single) :
    (∀ found, f.Probes point key found ↔ f.hitTestFrom key point = .ok found) ∧
      f.hitTestFrom key point = .ok ((f.descendants key).filter (f.Covered point key)).getLast? ∧
      (f.hitTestFrom key point = .ok none ↔ ¬(f.box key).rect.Contains point) ∧
      f.hitTestFrom .root point = .ok (f.hitTest point) := by
  have linked := path.linked
  have present := linked.contains_attached attached
  have acyclic := linked.acyclic_attached attached
  have outlines := outlines_outline linked present acyclic
  have answer : ∀ {key}, f.Contains key → f.hitTestFrom key point = .ok (f.hitIn point (f.outline key)) := fun present =>
    Result.bind_ok.mpr ⟨_,validate_of_contains present,rfl⟩
  refine ⟨fun found => ?_,?_,?_,answer (contains_root linked)⟩
  · rw [answer present,Except.ok.injEq,← outlines.probes_iff linked,value_outline]
  · rw [answer present,outlines.hitIn_eq linked (by rwa [value_outline]),value_outline,descendants_eq linked present acyclic]
  · rw [answer present,Except.ok.injEq,hitIn_eq_none,value_outline]

def overlapping : Forest := after
  [.setRect .root (.ofNumbers 0 0 100 100),.createChild .root,.setRect ⟨1⟩ (.ofNumbers 0 0 50 50),
    .createChild .root,.setRect ⟨2⟩ (.ofNumbers 30 30 20 20),.createChild ⟨1⟩,.setRect ⟨3⟩ (.ofNumbers 40 40 60 60)]

open scoped Classical in
theorem hitTest_uppermost_overlapping : overlapping.Reachable ∧ overlapping.Attached .root ∧ overlapping.Attached ⟨1⟩ ∧
    overlapping.descendants .root = [.root,⟨1⟩,⟨3⟩,⟨2⟩] ∧
    (overlapping.descendants .root |>.filter (overlapping.Covered ⟨45,45⟩ .root)).getLast? = some ⟨2⟩ ∧
    (overlapping.descendants .root |>.filter (overlapping.Covered ⟨70,70⟩ .root)).getLast? = some .root ∧
    (overlapping.descendants ⟨1⟩ |>.filter (overlapping.Covered ⟨45,45⟩ ⟨1⟩)).getLast? = some ⟨3⟩ ∧
    overlapping.Probes ⟨45,45⟩ ⟨1⟩ (some ⟨3⟩) ∧ overlapping.Probes ⟨70,70⟩ ⟨1⟩ none := by
  have path : overlapping.Reachable := reachable_after _
  have inside : overlapping.Attached ⟨1⟩ := .child (by decide +kernel : (overlapping.links ⟨1⟩).parent = some .root) .self
  obtain ⟨_,both,_⟩ := hitTest_uppermost path .self ⟨45,45⟩
  obtain ⟨_,reached,_⟩ := hitTest_uppermost path .self ⟨70,70⟩
  obtain ⟨probes,below,_⟩ := hitTest_uppermost path inside ⟨45,45⟩
  obtain ⟨misses,_⟩ := hitTest_uppermost path inside ⟨70,70⟩
  have root : overlapping.hitTestFrom .root ⟨45,45⟩ = .ok (some ⟨2⟩) := by decide +kernel
  have past : overlapping.hitTestFrom .root ⟨70,70⟩ = .ok (some .root) := by decide +kernel
  have first : overlapping.hitTestFrom ⟨1⟩ ⟨45,45⟩ = .ok (some ⟨3⟩) := by decide +kernel
  have none : overlapping.hitTestFrom ⟨1⟩ ⟨70,70⟩ = .ok none := by decide +kernel
  refine ⟨path,.self,inside,by decide +kernel,?_,?_,?_,(probes _).mpr first,(misses _).mpr none⟩
  · exact (Except.ok.inj (root.symm.trans both)).symm
  · exact (Except.ok.inj (past.symm.trans reached)).symm
  · exact (Except.ok.inj (first.symm.trans below)).symm

end Forest
end BoxLayout
