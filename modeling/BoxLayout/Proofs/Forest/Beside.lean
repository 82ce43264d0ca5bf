import BoxLayout.Proofs.Forest.Written
import BoxLayout.Proofs.Layout.Blind

namespace BoxLayout.Forest

-- Updates of two forests that differ in one subtree only. Where that hangs out of the
-- flow of a container whose size is fixed, everything beside it comes out the same.

variable {f g : Forest} {top key parent child : Key} {t u v : Tree Key}

theorem controls_of_find (same : g.find key = f.find key) : g.controls[key.index]? = f.controls[key.index]? := by
  unfold find at same
  split at same <;> split at same <;> simp_all

theorem links_of_find (same : g.find key = f.find key) : g.links key = f.links key := by
  unfold links
  rw [controls_of_find same]

theorem box_of_find (same : g.find key = f.find key) : g.box key = f.box key := by
  unfold box
  rw [controls_of_find same]

theorem contains_of_find (same : g.find key = f.find key) (present : f.Contains key) : g.Contains key := by
  by_contra missing
  obtain ⟨control,found⟩ := controls_of_contains present
  rw [← controls_of_find same,controls_of_missing missing] at found
  cases found

def Beside (f g : Forest) (top key : Key) : Prop := ¬f.Within top key ∧ ¬g.Within top key

-- The same records outside of the subtree, which keeps its place: its siblings' own
-- records tell what stands before it.
structure AlikeOutside (f g : Forest) (top : Key) : Prop where
  records : ∀ key, Beside f g top key → g.find key = f.find key
  parent : (g.links top).parent = (f.links top).parent
  next : (g.links top).nextSibling = (f.links top).nextSibling

theorem AlikeOutside.symm (alike : AlikeOutside f g top) : AlikeOutside g f top :=
  ⟨fun key beside => (alike.records key ⟨beside.2,beside.1⟩).symm,alike.parent.symm,alike.next.symm⟩

theorem Beside.of_parent (beside : Beside f g top parent) (under : (f.links child).parent = some parent)
    (under' : (g.links child).parent = some parent) (apart : child ≠ top) : Beside f g top child := by
  have outside : ∀ {h : Forest}, ¬h.Within top parent → (h.links child).parent = some parent → ¬h.Within top child := by
    intro h above under inside
    cases inside with
    | self => exact apart rfl
    | child other inside =>
        rw [under] at other
        cases other
        exact above inside
  exact ⟨outside beside.1 under,outside beside.2 under'⟩

namespace AlikeOutside
variable (alike : AlikeOutside f g top)
include alike

-- The siblings below a control beside the subtree are met in the same order: each leads
-- on by its own record, the top of the subtree by assumption.
theorem chain_eq {start : Option Key} {ones twos : List Key} (beside : Beside f g top parent)
    (one : Chain (fun key => (f.links key).nextSibling) start ones none)
    (two : Chain (fun key => (g.links key).nextSibling) start twos none)
    (under : ∀ key ∈ ones, (f.links key).parent = some parent)
    (under' : ∀ key ∈ twos, (g.links key).parent = some parent) : twos = ones := by
  induction ones generalizing start twos with
  | nil =>
      cases one
      cases twos with
      | nil => rfl
      | cons key rest => cases two.1
  | cons key rest ih =>
      obtain ⟨rfl,more⟩ := one
      cases twos with
      | nil => cases two
      | cons key' rest' =>
          obtain ⟨same,more'⟩ := two
          cases same
          have next : (g.links key).nextSibling = (f.links key).nextSibling := by
            by_cases own : key = top
            · exact own ▸ alike.next
            · have beside' := beside.of_parent (under key List.mem_cons_self) (under' key List.mem_cons_self) own
              rw [links_of_find (alike.records key beside')]
          dsimp only at more'
          rw [next] at more'
          rw [ih more more' (fun other member => under other (List.mem_cons_of_mem _ member))
            fun other member => under' other (List.mem_cons_of_mem _ member)]

variable (here : f.Linked) (there : g.Linked)
include here there

theorem children_eq (beside : Beside f g top parent) : g.children parent = f.children parent := by
  have record := alike.records parent beside
  by_cases present : f.Contains parent
  · have siblings := here.siblings_children present
    have siblings' := there.siblings_children (contains_of_find record present)
    have forward' := siblings'.forward
    rw [links_of_find record] at forward'
    exact alike.chain_eq beside siblings.forward forward' (fun key member => (siblings.members key).mp member)
      fun key member => (siblings'.members key).mp member
  · rw [children_of_missing present,children_of_missing fun inside => present (contains_of_find record.symm inside)]

theorem child_of_mem (beside : Beside f g top parent) (listed : child ∈ f.children parent) (apart : child ≠ top) :
    Beside f g top child := by
  refine beside.of_parent (here.mem_children.mp listed) ?_ apart
  rwa [← there.mem_children,alike.children_eq here there beside]

theorem beside_of_attached (apart : top ≠ .root) (attached : f.Attached key) (outside : ¬f.Within top key) :
    Beside f g top key ∧ g.Attached key := by
  induction attached with
  | self =>
      exact ⟨⟨outside,fun inside => apart (there.within_root inside)⟩,.self⟩
  | @child key parent under _ ih =>
      obtain ⟨beside,attached⟩ := ih fun inside => outside (.child under inside)
      have own : key ≠ top := fun same => outside (same ▸ .self)
      have listed := here.mem_children.mpr under
      refine ⟨alike.child_of_mem here there beside listed own,.child ?_ attached⟩
      rwa [← there.mem_children,alike.children_eq here there beside]

theorem outlines_beside (outlines : f.Outlines t) (beside : Beside f g top t.value) (away : top ∉ t.preorder) :
    g.Outlines t ∧ ∀ key ∈ t.preorder, Beside f g top key := by
  induction outlines with
  | @node key trees listed below ih =>
      have each : ∀ tree ∈ trees, g.Outlines tree ∧ ∀ key ∈ tree.preorder, Beside f g top key := by
        intro tree member
        rw [Tree.preorder_node] at away
        have away' : top ∉ tree.preorder := fun inside =>
          away (List.mem_cons_of_mem _ (List.mem_flatMap.mpr ⟨tree,member,inside⟩))
        have child : tree.value ∈ f.children key := listed ▸ List.mem_map_of_mem member
        refine ih tree member (alike.child_of_mem here there beside child ?_) away'
        exact fun own => away' (own ▸ tree.value_mem_preorder)
      refine ⟨.node (listed.trans (alike.children_eq here there beside).symm) fun tree member => (each tree member).1,?_⟩
      intro other member
      rw [Tree.preorder_node] at member
      rcases List.mem_cons.mp member with rfl | inside
      · exact beside
      · obtain ⟨tree,found,inside⟩ := List.mem_flatMap.mp inside
        exact (each tree found).2 other inside

theorem outlines_others {before after : List (Tree Key)} (beside : Beside f g top key)
    (listed : (before ++ t :: after).map Tree.value = f.children key) (below : ∀ tree ∈ before ++ t :: after, f.Outlines tree)
    (away : ∀ tree ∈ before ++ after, top ∉ tree.preorder) :
    ∀ tree ∈ before ++ after, g.Outlines tree ∧ ∀ key ∈ tree.preorder, Beside f g top key := by
  intro tree member
  have member' : tree ∈ before ++ t :: after := by
    simp only [List.mem_append,List.mem_cons] at member ⊢
    tauto
  have child : tree.value ∈ f.children key := listed ▸ List.mem_map_of_mem member'
  refine alike.outlines_beside here there (below tree member') ?_ (away tree member)
  exact alike.child_of_mem here there beside child fun own => away tree member (own ▸ tree.value_mem_preorder)

theorem outlines_with {before after : List (Tree Key)} (beside : Beside f g top key)
    (listed : (before ++ t :: after).map Tree.value = f.children key) (others : ∀ tree ∈ before ++ after, g.Outlines tree)
    (same : u.value = t.value) (outlines : g.Outlines u) : g.Outlines (.node key (before ++ u :: after)) := by
  refine .node ?_ fun tree member => ?_
  · rw [alike.children_eq here there beside,← listed,List.map_append,List.map_append,List.map_cons,List.map_cons,same]
  · rcases List.mem_append.mp member with first | second
    · exact others tree (List.mem_append_left _ first)
    · rcases List.mem_cons.mp second with rfl | second
      · exact outlines
      · exact others tree (List.mem_append_right _ second)

-- Around the subtree they have one outline, with the two subtrees in its open place.
theorem outlines_around (outlines : f.Outlines t) (distinct : t.preorder.Nodup) (beside : Beside f g top t.value)
    (inside : top ∈ t.preorder) (one : f.Outlines u) (two : g.Outlines v) (top_u : u.value = top) (top_v : v.value = top) :
    ∃ K : Tree.Context Key, t = K.fill u ∧ g.Outlines (K.fill v) ∧ (f.links top).parent = some K.holder ∧
      ∀ key ∈ K.values, Beside f g top key := by
  induction outlines with
  | @node key trees listed below ih =>
      change Beside f g top key at beside
      rw [Tree.preorder_node,List.mem_cons,List.mem_flatMap] at inside
      rw [Tree.preorder_node,List.nodup_cons,List.nodup_flatMap] at distinct
      obtain ⟨_,distinctBelow,disjoint⟩ := distinct
      rcases inside with own | ⟨tree,member,inside⟩
      · exact absurd (own ▸ .self) beside.1
      · obtain ⟨before,after,rfl⟩ := List.append_of_mem member
        have away := Tree.away_of_disjoint disjoint inside
        have others := alike.outlines_others here there beside listed below away
        have apart : ∀ other ∈ (before ++ after).flatMap Tree.preorder, Beside f g top other := by
          intro other found
          obtain ⟨tree,member,found⟩ := List.mem_flatMap.mp found
          exact (others tree member).2 other found
        have child : tree.value ∈ f.children key := listed ▸ List.mem_map_of_mem member
        by_cases own : tree.value = top
        · have same : tree = u := (below tree member).unique one (own.trans top_u.symm)
          refine ⟨.last key before after,same ▸ rfl,?_,?_,?_⟩
          · exact alike.outlines_with here there beside listed (fun tree member => (others tree member).1)
              (top_v.trans own.symm) two
          · exact own ▸ here.mem_children.mp child
          · exact List.forall_mem_cons.mpr ⟨beside,apart⟩
        · have beside' := alike.child_of_mem here there beside child own
          obtain ⟨inner,filled,outlines,holder,values⟩ := ih tree member (distinctBelow tree member) beside' inside
          have root : (inner.fill v).value = tree.value := by
            rw [filled,Tree.Context.value_fill,Tree.Context.value_fill]
          refine ⟨.step key before inner after,filled ▸ rfl,?_,holder,?_⟩
          · exact alike.outlines_with here there beside listed (fun tree member => (others tree member).1) root outlines
          · intro other found
            rcases List.mem_append.mp found with found | found
            · rcases List.mem_cons.mp found with rfl | found
              · exact beside
              · exact values other found
            · exact apart other found

theorem outline_around (attached : f.Attached parent) (under : (f.links top).parent = some parent) :
    ∃ K : Tree.Context Key, f.outline .root = K.fill (f.outline top) ∧ g.outline .root = K.fill (g.outline top) ∧
      K.holder = parent ∧ ∀ key ∈ K.values, Beside f g top key := by
  have under' : (g.links top).parent = some parent := alike.parent.trans under
  have apart := here.ne_root under
  have acyclic : f.Acyclic top := here.acyclic_attached (.child under attached)
  obtain ⟨_,attached'⟩ := alike.beside_of_attached here there apart attached fun inside => acyclic ⟨parent,under,inside⟩
  have acyclic' : g.Acyclic top := there.acyclic_attached (.child under' attached')
  have root : f.Acyclic (f.outline .root).value := (value_outline f .root).symm ▸ acyclic_root here
  have beside : Beside f g top (f.outline .root).value := by
    rw [value_outline]
    exact (alike.beside_of_attached here there apart .self fun inside => apart (here.within_root inside)).1
  have outlines := outlines_root here
  obtain ⟨K,filled,outlines',holder,values⟩ := alike.outlines_around here there outlines
    (outlines.nodup_preorder here root) beside (here.mem_outline_root.mpr (.child under attached))
    (outlines_outline here (contains_of_parent under) acyclic) (outlines_outline there (contains_of_parent under') acyclic')
    (value_outline f top) (value_outline g top)
  refine ⟨K,filled,?_,Option.some.inj (holder.symm.trans under),values⟩
  refine (outlines_root there).unique outlines' ?_
  rw [value_outline,Tree.Context.value_fill,← Tree.Context.value_fill K (f.outline top),← filled,value_outline]

end AlikeOutside

-- What is found around the open place rests on what was there before.
theorem update_around {K : Tree.Context Key} {B L : Tree.Context Box} (linked : f.Linked) (filled : f.outline .root = K.fill u)
    (boxes : K.map f.box = B) (path : L.path = B.path) (fits : B.Fits (u.map f.box))
    (done : ∀ t, B.Fits t → ∃ v, L.Fits v ∧ (B.fill t).layOut none = L.fill v) : K.map f.update.box = L := by
  have laidOut := boxesAt_update linked
  obtain ⟨v,_,same⟩ := done _ fits
  rw [filled,boxesAt,boxesAt,Tree.Context.map_fill,Tree.Context.map_fill,boxes,same] at laidOut
  refine (Tree.Context.fill_injective ?_ laidOut).1
  rw [path,← boxes,Tree.Context.path_map,Tree.Context.path_map]

theorem update_beside {holder : Key} (path : f.Reachable) (path' : g.Reachable) (alike : AlikeOutside f g top)
    (attached : f.Attached holder) (under : (f.links top).parent = some holder)
    (fixed : ∀ axis, 0 < (f.box holder).fixedSize.get axis) (out : (f.box holder).OutOfFlow (f.box top))
    (out' : (g.box holder).OutOfFlow (g.box top)) :
    (∀ key, f.Attached key → ¬f.Within top key → Beside f g top key ∧ g.Attached key) ∧
      ∀ key, Beside f g top key → g.update.box key = f.update.box key := by
  have here := path.linked
  have there := path'.linked
  obtain ⟨K,filled,filled',rfl,values⟩ := alike.outline_around here there attached under
  have boxes : K.map g.box = K.map f.box :=
    Tree.Context.map_eq_map_iff.mpr fun key member => box_of_find (alike.records key (values key member))
  have found : g.box K.holder = f.box K.holder := by
    rw [← Tree.Context.holder_map g.box,boxes,Tree.Context.holder_map]
  obtain ⟨L,shape,done⟩ := Tree.blind_layOut (K.map f.box)
  have fits : ∀ {h : Forest}, (f.box K.holder).OutOfFlow (h.box top) → (K.map f.box).Fits ((h.outline top).map h.box) := by
    intro h out
    refine ⟨?_,?_⟩
    · rwa [Tree.Context.holder_map]
    · rwa [Tree.Context.holder_map,Tree.value_map,value_outline]
  have one := update_around here filled rfl shape (fits out) done
  have two := update_around there filled' boxes shape (fits (found ▸ out')) done
  have apart := here.ne_root under
  refine ⟨fun key inside outside => alike.beside_of_attached here there apart inside outside,fun key beside => ?_⟩
  by_cases inside : f.Attached key
  · refine Tree.Context.map_eq_map_iff.mp (two.trans one.symm) key ?_
    have listed := here.mem_outline_root.mpr inside
    rw [filled,Tree.Context.mem_fill] at listed
    exact listed.resolve_right fun below => beside.1 (within_of_mem_outlineTo here below)
  · have outside : ¬g.Attached key := fun attached' =>
      inside (alike.symm.beside_of_attached there here apart attached' beside.2).2
    rw [box_update_outside here inside,box_update_outside there outside,box_of_find (alike.records key beside)]

def framed : List Command :=
  [.setContainerFlags .root (.ofWord 1),.setSize .root ⟨200,100⟩,.createChild .root,.setContainerFlags ⟨1⟩ (.ofWord 1),
    .setSize ⟨1⟩ ⟨60,40⟩,.createChild ⟨1⟩,.createChild ⟨1⟩,.setSize ⟨3⟩ ⟨10,10⟩,.createChild .root,
    .setMinimumSize ⟨4⟩ ⟨50,unset⟩]

def crampedColumn : Forest := after
  (framed ++ [.setContainerFlags ⟨2⟩ (.ofWord 6),.setLayoutFlags ⟨2⟩ (.ofWord 1024),.setSize ⟨2⟩ ⟨0,30⟩,
    .createChild ⟨2⟩,.setSize ⟨5⟩ ⟨20,20⟩,.createChild ⟨2⟩,.setSize ⟨6⟩ ⟨20,20⟩])

def stackedRow : Forest := after
  (framed ++ [.setContainerFlags ⟨2⟩ (.ofWord 1),.setLayoutFlags ⟨2⟩ (.ofWord 2048),.setMargins ⟨2⟩ ⟨5,6,7,8⟩,
    .createChild ⟨2⟩,.setSize ⟨5⟩ ⟨90,70⟩])

theorem alikeOutside_stackedRow : AlikeOutside crampedColumn stackedRow ⟨2⟩ where
  records key beside := by
    by_cases present : crampedColumn.Contains key
    · have checked : ∀ key ∈ crampedColumn.keys, stackedRow.find key = crampedColumn.find key ∨ key = ⟨2⟩ ∨
          (crampedColumn.links key).parent = some ⟨2⟩ := by decide +kernel
      rcases checked key (mem_keys.mpr present) with same | rfl | under
      · exact same
      · exact absurd .self beside.1
      · exact absurd (.child under .self) beside.1
    · have smaller : stackedRow.size ≤ crampedColumn.size := by decide +kernel
      have missing : ¬stackedRow.Contains key := fun inside => present (Nat.lt_of_lt_of_le inside smaller)
      unfold find
      rw [controls_of_missing present,controls_of_missing missing]
  parent := by decide +kernel
  next := by decide +kernel

theorem update_beside_stackedRow : crampedColumn.Reachable ∧ stackedRow.Reachable ∧
    AlikeOutside crampedColumn stackedRow ⟨2⟩ ∧ crampedColumn.Attached ⟨1⟩ ∧
      (crampedColumn.links ⟨2⟩).parent = some ⟨1⟩ ∧ (∀ axis, 0 < (crampedColumn.box ⟨1⟩).fixedSize.get axis) ∧
        (crampedColumn.box ⟨1⟩).OutOfFlow (crampedColumn.box ⟨2⟩) ∧ (stackedRow.box ⟨1⟩).OutOfFlow (stackedRow.box ⟨2⟩) ∧
          (crampedColumn.update.box ⟨6⟩).flags.isBreak = true ∧
            stackedRow.update.box ⟨3⟩ = crampedColumn.update.box ⟨3⟩ ∧
              stackedRow.update.box ⟨4⟩ = crampedColumn.update.box ⟨4⟩ := by
  have path : crampedColumn.Reachable := reachable_after _
  have path' : stackedRow.Reachable := reachable_after _
  have one : (crampedColumn.links ⟨1⟩).parent = some .root := by decide +kernel
  have two : (crampedColumn.links ⟨2⟩).parent = some ⟨1⟩ := by decide +kernel
  have three : (crampedColumn.links ⟨3⟩).parent = some ⟨1⟩ := by decide +kernel
  have four : (crampedColumn.links ⟨4⟩).parent = some .root := by decide +kernel
  have attached : crampedColumn.Attached ⟨1⟩ := .child one .self
  have fixed : ∀ axis, 0 < (crampedColumn.box ⟨1⟩).fixedSize.get axis := by
    rintro (_ | _) <;> decide +kernel
  have out : (crampedColumn.box ⟨1⟩).OutOfFlow (crampedColumn.box ⟨2⟩) := .inl (by decide +kernel)
  have out' : (stackedRow.box ⟨1⟩).OutOfFlow (stackedRow.box ⟨2⟩) := .inr (.inl (by decide +kernel))
  obtain ⟨beside,same⟩ := update_beside path path' alikeOutside_stackedRow attached two fixed out out'
  have top := acyclic_root path.linked
  have apart : ¬crampedColumn.Within ⟨2⟩ ⟨3⟩ := fun inside =>
    absurd (Within.same_child (path.linked.acyclic_attached attached) two three inside .self) (by decide)
  have apart' : ¬crampedColumn.Within ⟨2⟩ ⟨4⟩ := fun inside =>
    absurd (Within.same_child top one four (Within.trans (.child two .self) inside) .self) (by decide)
  refine ⟨path,path',alikeOutside_stackedRow,attached,two,fixed,out,out',by decide +kernel,same _ ?_,same _ ?_⟩
  · exact (beside _ (.child three attached) apart).1
  · exact (beside _ (.child four .self) apart').1

end BoxLayout.Forest
