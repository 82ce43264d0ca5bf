import BoxLayout.Proofs.Forest.Written
import BoxLayout.Proofs.Layout.Lasting

namespace BoxLayout

-- What lasts through a layout holds of every attached control after an update.

namespace Forest
variable {f : Forest}

theorem each_outline {t : Tree Key} {P : Box → List Box → Prop} (outlines : f.Outlines t) (each : (t.map f.box).Each P) :
    ∀ key ∈ t.preorder, P (f.box key) ((f.children key).map f.box) := by
  induction outlines with
  | @node top trees listed below ih =>
      rw [Tree.map_node] at each
      cases each with
      | node here deeper =>
          intro key member
          rw [Tree.preorder_node] at member
          rcases List.mem_cons.mp member with rfl | inside
          · have values : trees.map (Tree.value ∘ Tree.map f.box) = trees.map (f.box ∘ Tree.value) :=
              List.map_congr_left fun tree _ => Tree.value_map f.box tree
            rw [List.map_map,values] at here
            rw [← listed,List.map_map]
            exact here
          · obtain ⟨tree,found,inside⟩ := List.mem_flatMap.mp inside
            exact ih tree found (deeper _ (List.mem_map_of_mem found)) key inside

end Forest
open Forest

theorem Lasting.update {Plain : Axis → Box → Prop} {Fine : Axis → ContainerFlags → Box → Prop} {f : Forest}
    (lasting : Lasting Plain Fine) (linked : f.Linked)
    (plain : ∀ key, f.Attached key → ∀ axis, Plain axis (f.box key)) (axis : Axis) :
    Fine axis .empty (f.update.box .root) ∧ ∀ {parent child : Key}, f.update.Attached parent →
      (f.update.links child).parent = some parent → Fine axis (f.update.box parent).container (f.update.box child) := by
  have same := sameLinks_update f
  have still := same.linked linked
  have outlines := outlines_root still
  have lasts : (f.update.boxesAt (f.update.outline .root)).Lasts (Fine axis) := by
    have laidOut := boxesAt_update linked
    rw [same.outline_eq]
    refine laidOut ▸ lasting.layOut ?_ axis
    intro b member axis
    rw [boxesAt,Tree.preorder_map] at member
    obtain ⟨key,listed,rfl⟩ := List.mem_map.mp member
    exact plain key (linked.mem_outline_root.mp listed) axis
  constructor
  · have root := lasts.root
    rwa [boxesAt,Tree.value_map,value_outline] at root
  · intro parent child inside under
    have below := each_outline outlines lasts.children parent (still.mem_outline_root.mpr inside)
    exact below _ (List.mem_map_of_mem (still.mem_children.mpr under))

end BoxLayout
