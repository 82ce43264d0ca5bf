import BoxLayout.Proofs.Forest.Written
import BoxLayout.Proofs.Snapshot.Settled
import BoxLayout.Proofs.Layout.HeardBreaks

namespace BoxLayout

-- A forced break on the first child that stands on a run opens no other, so asking for one
-- there changes nothing, provided that only floating children come before it. A stacked one
-- takes part in the run across the container, and makes the break heard.

structure Rect.Alike (r s : Rect) : Prop where
  start : ∀ axis, (r.start axis).Alike (s.start axis)
  extent : ∀ axis, r.extent axis = s.extent axis

theorem Box.Alike.rect {a b : Box} (alike : Box.Alike a b) : a.rect.Alike b.rect := ⟨alike.start,fun _ => alike.extent⟩

def Box.asking (b : Box) (forced : Bool) : Box := { b with flags := { b.flags with forceBreak := forced } }

theorem Box.alike_asking (b : Box) (forced : Bool) : Box.Alike b (b.asking forced) := ⟨rfl,fun _ => .refl _⟩

theorem Box.heard_first {before : List Box} (floats : ∀ b ∈ before, b.flags.floating = true) (b : Box) (forced : Bool)
    (after : List Box) : Box.heard false (before ++ b.asking forced :: after) = Box.heard false (before ++ b :: after) := by
  induction before with
  | nil => rfl
  | cons first rest ih =>
      have later := ih fun other member => floats other (List.mem_cons_of_mem _ member)
      rw [List.cons_append,List.cons_append,Box.heard,Box.heard,floats first List.mem_cons_self]
      exact congrArg _ later

namespace Forest
variable {f g : Forest} {key child : Key} {t : Tree Key}

theorem setLayoutFlags_asking (present : f.Contains child) (forced : Bool) :
    ∃ g, f.setLayoutFlags child { (f.box child).flags with forceBreak := forced } = .ok g ∧ SameLinks f g ∧
      ∀ key, g.box key = if child = key then (f.box key).asking forced else f.box key := by
  refine ⟨_,modifyBox_of_contains present,sameLinks_editBox _ _ _,fun key => ?_⟩
  rw [box_editBox _ _ _ _ present]
  split
  · rename_i same
    subst same
    rfl
  · rfl

theorem twins_boxesAt (outlines : f.Outlines t) (alike : ∀ key, Box.Alike (f.box key) (g.box key))
    (heard : ∀ key, Box.heard false ((f.children key).map f.box) = Box.heard false ((f.children key).map g.box)) :
    Tree.Twins (t.map f.box) (t.map g.box) := by
  refine ⟨Tree.Related.maps.mpr fun key _ => alike key,?_⟩
  induction outlines with
  | @node top trees listed _ ih =>
      have values : ∀ box : Key → Box, (trees.map (Tree.map box)).map Tree.value = (f.children top).map box := by
        intro box
        rw [← listed,List.map_map,List.map_map]
        exact List.map_congr_left fun tree _ => Tree.value_map box tree
      rw [Tree.map_node,Tree.map_node,Tree.heard_node,Tree.heard_node,values,values,heard top,List.map_map,List.map_map]
      congr 1
      exact List.map_congr_left ih

section Asking
variable (linked : f.Linked) {before after : List Key} (listed : f.children key = before ++ child :: after)
  (floats : ∀ other ∈ before, (f.box other).flags.floating = true) {forced : Bool}
  (boxes : ∀ key, g.box key = if child = key then (f.box key).asking forced else f.box key)
include boxes

theorem alike_asked (other : Key) : Box.Alike (f.box other) (g.box other) := by
  rw [boxes]
  split
  · exact Box.alike_asking _ _
  · exact .refl _

theorem map_box_asked {keys : List Key} (away : child ∉ keys) : keys.map g.box = keys.map f.box := by
  refine List.map_congr_left fun other member => ?_
  have apart : child ≠ other := by
    rintro rfl
    exact away member
  rw [boxes,if_neg apart]

include linked listed floats

theorem heard_asked (parent : Key) :
    Box.heard false ((f.children parent).map f.box) = Box.heard false ((f.children parent).map g.box) := by
  by_cases member : child ∈ f.children parent
  · have under : child ∈ f.children key := listed ▸ List.mem_append_right _ List.mem_cons_self
    have same : parent = key := Option.some.inj ((linked.mem_children.mp member).symm.trans (linked.mem_children.mp under))
    have distinct := linked.nodup_children key
    rw [listed,List.nodup_middle,List.nodup_cons,List.mem_append,not_or] at distinct
    obtain ⟨⟨notBefore,notAfter⟩,_⟩ := distinct
    rw [same,listed,List.map_append,List.map_append,List.map_cons,List.map_cons,map_box_asked boxes notBefore,
      map_box_asked boxes notAfter,boxes child,if_pos rfl]
    refine (Box.heard_first (fun b inside => ?_) _ _ _).symm
    obtain ⟨other,early,rfl⟩ := List.mem_map.mp inside
    exact floats other early
  · rw [map_box_asked boxes member]

end Asking

-- Wherever it is, and whatever else is set.
theorem first_break_ignored (path : f.Reachable) {before after : List Key} (listed : f.children key = before ++ child :: after)
    (floats : ∀ other ∈ before, (f.box other).flags.floating = true) (forced : Bool) :
    ∃ g, f.setLayoutFlags child { (f.box child).flags with forceBreak := forced } = .ok g ∧
      ∀ other, (f.update.box other).rect.Alike (g.update.box other).rect ∧
        (f.update.box other).flags.isBreak = (g.update.box other).flags.isBreak := by
  have linked := path.linked
  have under : (f.links child).parent = some key := linked.mem_children.mp (listed ▸ List.mem_append_right _ List.mem_cons_self)
  obtain ⟨g,done,same,boxes⟩ := setLayoutFlags_asking (contains_of_parent under) forced
  have there := same.linked linked
  have alike := alike_asked boxes
  have laidOut := boxesAt_update linked
  have laidOut' := boxesAt_update there
  rw [same.outline_eq] at laidOut'
  have twins := twins_boxesAt (outlines_root linked) alike (heard_asked linked listed floats boxes)
  have after := (Tree.layOut_twins twins).alike
  rw [← boxesAt,← boxesAt,← laidOut,← laidOut'] at after
  refine ⟨g,done,fun other => ?_⟩
  have found : Box.Alike (f.update.box other) (g.update.box other) := by
    by_cases attached : f.Attached other
    · exact Tree.Related.maps.mp after other (linked.mem_outline_root.mpr attached)
    · have outside : ¬g.Attached other := fun inside => attached (same.within_iff.mp inside)
      rw [box_update_outside linked attached,box_update_outside there outside]
      exact alike other
  exact ⟨found.rect,found.isBreak⟩

-- A wrapping column whose first child floats; the second asks for nothing yet, and the third
-- does not fit below it.
def floatingFirst : Forest := after
  [.setContainerFlags .root (.ofWord 6),.setSize .root ⟨unset,100⟩,.createChild .root,.setSize ⟨1⟩ ⟨10,10⟩,
    .setLayoutFlags ⟨1⟩ (.ofWord 0x400),.createChild .root,.setSize ⟨2⟩ ⟨20,60⟩,.createChild .root,.setSize ⟨3⟩ ⟨30,60⟩]

theorem first_break_ignored_floatingFirst : floatingFirst.Reachable ∧ floatingFirst.children .root = [⟨1⟩] ++ ⟨2⟩ :: [⟨3⟩] ∧
    (floatingFirst.box ⟨1⟩).flags.floating = true ∧ (floatingFirst.update.box ⟨3⟩).flags.isBreak = true ∧
    ∃ g, floatingFirst.setLayoutFlags ⟨2⟩ { (floatingFirst.box ⟨2⟩).flags with forceBreak := true } = .ok g ∧
      ∀ other, (floatingFirst.update.box other).rect.Alike (g.update.box other).rect ∧
        (floatingFirst.update.box other).flags.isBreak = (g.update.box other).flags.isBreak := by
  have path : floatingFirst.Reachable := reachable_after _
  have listed : floatingFirst.children .root = [⟨1⟩] ++ ⟨2⟩ :: [⟨3⟩] := by decide +kernel
  have floats : ∀ other ∈ [(⟨1⟩ : Key)], (floatingFirst.box other).flags.floating = true := by decide +kernel
  exact ⟨path,listed,by decide +kernel,by decide +kernel,first_break_ignored path listed floats true⟩

-- A stacked child first: asked for a run, the child after it stands beside it and not over it.
def stackedFirst : Forest := after
  [.setContainerFlags .root (.ofWord 13),.setSize .root ⟨100,100⟩,.createChild .root,.setSize ⟨1⟩ ⟨20,30⟩,
    .setLayoutFlags ⟨1⟩ (.ofWord 0x800),.createChild .root,.setSize ⟨2⟩ ⟨20,10⟩]

theorem first_break_heard : stackedFirst.Reachable ∧ stackedFirst.Attached .root ∧
    (stackedFirst.box .root).arrangement.wraps = true ∧ stackedFirst.children .root = [⟨1⟩,⟨2⟩] ∧
    (stackedFirst.box ⟨1⟩).flags.inFlow = false ∧ (stackedFirst.box ⟨2⟩).flags.inFlow = true ∧
    ∃ g, stackedFirst.setLayoutFlags ⟨2⟩ { (stackedFirst.box ⟨2⟩).flags with forceBreak := true } = .ok g ∧
      (stackedFirst.update.box ⟨2⟩).start .y = 10 ∧ (g.update.box ⟨2⟩).start .y = 30 := by
  refine ⟨reachable_after _,.self,by decide +kernel,by decide +kernel,by decide +kernel,by decide +kernel,
    _,modifyBox_of_contains (by decide +kernel),by decide +kernel,by decide +kernel⟩

end Forest
end BoxLayout
