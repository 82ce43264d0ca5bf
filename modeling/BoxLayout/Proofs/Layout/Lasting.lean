import BoxLayout.Proofs.Layout.Passes

namespace BoxLayout

-- What the size pass gives every box and no later step takes from it. A box may owe
-- something to the container it is in; the root counts as in one without settings.

structure Lasting (Plain : Axis → Box → Prop) (Fine : Axis → ContainerFlags → Box → Prop) : Prop where
  kept : ∀ {axis a b}, Box.SameKept a b → Plain axis a → Plain axis b
  sized : ∀ {axis b}, Plain axis b → ∀ container children, Fine axis container (b.sized axis children)
  placing : ∀ axis container, Placing axis container fun _ b => Fine axis container b
  clipped : ∀ {axis container b}, container.constrainSize = true → Fine axis container b →
    ∀ span, Fine axis container (b.clippedTo axis (some span))
  writing : ∀ {axis other}, other ≠ axis →
    Writing axis fun a b => ∀ container, Fine other container a → Fine other container b

def Owed (Fine : ContainerFlags → Box → Prop) (b : Box) (children : List Box) : Prop :=
  ∀ child ∈ children, Fine b.container child

structure Tree.Lasts (Fine : ContainerFlags → Box → Prop) (t : Tree Box) : Prop where
  root : Fine .empty t.value
  children : t.Each (Owed Fine)

namespace Tree

theorem mem_arrangeAll {R : Tree Box → Box → Prop} {axis : Axis} {clip : Option Span} {boxes : List Box}
    {trees : List (Tree Box)} {u : Tree Box} (related : List.Forall₂ R trees boxes)
    (member : u ∈ arrangeAll axis clip boxes trees) :
    ∃ tree ∈ trees, ∃ b ∈ boxes, R tree b ∧ u = tree.arrange axis clip b := by
  induction related with
  | nil => cases member
  | cons one _ ih =>
      rcases List.mem_cons.mp member with rfl | later
      · exact ⟨_,List.mem_cons_self,_,List.mem_cons_self,one,rfl⟩
      · obtain ⟨tree,inside,b,listed,found⟩ := ih later
        exact ⟨tree,List.mem_cons_of_mem _ inside,b,List.mem_cons_of_mem _ listed,found⟩

end Tree

namespace Lasting
variable {Plain : Axis → Box → Prop} {Fine : Axis → ContainerFlags → Box → Prop} (lasting : Lasting Plain Fine)
include lasting
variable {t u : Tree Box} {axis other : Axis} {clip : Option Span}

theorem sizedTree (plain : ∀ b ∈ t.preorder, Plain axis b) (keep kept : Bool) :
    ∀ b ∈ (t.sized axis keep kept).preorder, ∀ container, Fine axis container b := by
  induction t generalizing kept with
  | node value children ih =>
      rw [Tree.preorder_node] at plain
      intro b member
      rw [Tree.sized_node] at member
      dsimp only at member
      rw [Tree.preorder_node] at member
      rcases List.mem_cons.mp member with rfl | below
      · have released := (Box.SameKept.writing axis).releaseBreak (.refl value) kept
        exact fun container => lasting.sized (lasting.kept released (plain value List.mem_cons_self)) container _
      · rw [List.flatMap_map,List.mem_flatMap] at below
        obtain ⟨tree,listed,inside⟩ := below
        have deeper : ∀ b ∈ tree.preorder, Plain axis b := fun b member =>
          plain b (List.mem_cons_of_mem _ (List.mem_flatMap.mpr ⟨tree,listed,member⟩))
        exact ih tree listed deeper _ b inside

theorem arrange {b : Box} (each : t.Each (Owed (Fine axis))) (same : b.container = t.value.container) :
    (t.arrange axis clip b).Each (Owed (Fine axis)) := by
  induction t generalizing b clip with
  | node value children ih =>
      cases each with
      | node here below =>
          have writing := Box.SameKept.writing axis
          have container : (b.clippedTo axis clip).container = value.container :=
            (writing.clippedTo (Box.SameKept.refl b) clip).inputs.container.symm.trans same
          have kept := (writing.placing _).settled (a := b.clippedTo axis clip) rfl
            (List.forall₂_same.mpr fun child (_ : child ∈ children.map Tree.value) => Box.SameKept.refl child)
          have placed := (lasting.placing axis _).settled (a := b.clippedTo axis clip) container (List.forall₂_same.mpr here)
          rw [Tree.arrange_node]
          rw [List.forall₂_map_left_iff] at kept
          refine .node ?_ ?_
          · intro child member
            obtain ⟨arranged,listed,rfl⟩ := List.mem_map.mp member
            obtain ⟨tree,_,b',inside,_,rfl⟩ := Tree.mem_arrangeAll kept listed
            obtain ⟨_,_,fine⟩ := Tree.related_of_mem placed inside
            rw [Tree.value_arrange,container]
            split
            · rename_i constrains
              exact lasting.clipped constrains fine _
            · exact fine
          · intro arranged listed
            obtain ⟨tree,inside,b',_,same,rfl⟩ := Tree.mem_arrangeAll kept listed
            exact ih tree inside (below tree inside) same.inputs.container.symm

-- On its own ground a tree is cut off nowhere but below its constraining boxes.
theorem passAxis (plain : ∀ b ∈ t.preorder, Plain axis b) (keep : Bool) : (t.passAxis keep none axis).Lasts (Fine axis) := by
  have sized := lasting.sizedTree plain keep false
  have each : (t.sized axis keep false).Each (Owed (Fine axis)) :=
    .of_all sized fun a _ all child member => all child member a.container
  unfold Tree.passAxis
  refine ⟨?_,lasting.arrange each rfl⟩
  rw [Tree.value_arrange]
  exact sized _ (Tree.value_mem_preorder _) _

theorem passAxis_other (apart : other ≠ axis) (fine : t.Lasts (Fine other)) (keep : Bool) :
    (t.passAxis keep none axis).Lasts (Fine other) := by
  have self : Tree.Related (fun a b : Box => ∀ container, Fine other container a → Fine other container b) t t := by
    apply Tree.Related.refl
    exact fun _ _ => id
  have related := (Tree.passAxis_kept t keep none axis).both ((lasting.writing apart).passAxis keep none self)
  refine ⟨related.value.2 _ fine.root,fine.children.transfer related ?_⟩
  intro a b as bs one below here child member
  obtain ⟨before,listed,kept⟩ := Tree.related_of_mem below member
  rw [← one.1.inputs.container]
  exact kept.2 _ (here before listed)

theorem plain_of_kept (kept : Tree.Related Box.SameKept t u) (plain : ∀ b ∈ t.preorder, ∀ axis, Plain axis b) :
    ∀ b ∈ u.preorder, ∀ axis, Plain axis b :=
  kept.all plain fun same here axis => lasting.kept same (here axis)

theorem pass (plain : ∀ b ∈ t.preorder, ∀ axis, Plain axis b) (keep : Bool) (axis : Axis) :
    (t.pass keep none).Lasts (Fine axis) := by
  have across := lasting.passAxis (fun b member => plain b member .x) keep
  have still := lasting.plain_of_kept (Tree.passAxis_kept t keep none .x) plain
  cases axis with
  | x => exact lasting.passAxis_other (by decide) across keep
  | y => exact lasting.passAxis (fun b member => still b member .y) keep

theorem layOut (plain : ∀ b ∈ t.preorder, ∀ axis, Plain axis b) (axis : Axis) : (t.layOut none).Lasts (Fine axis) := by
  unfold Tree.layOut
  dsimp only
  split
  · exact lasting.pass (lasting.plain_of_kept (Tree.pass_keeps t false none) plain) true axis
  · exact lasting.pass plain false axis

end Lasting
end BoxLayout
