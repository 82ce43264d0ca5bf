import BoxLayout.Proofs.Forest.Reset
import BoxLayout.Proofs.Forest.Written

namespace BoxLayout

-- What every call keeps between the flags of a control and its sizes, whatever was
-- called before, layouts of subtrees that hang in a cycle included.

-- A container was never configured or names one direction, the fixed markers follow
-- the fixed size, and the fixed size is one that a call has left there.
structure Box.Coherent (b : Box) : Prop where
  container : b.container = .empty ∨ b.container.Directed
  fixed : b.flags.fixed = b.fixedSize.map fun size => decide (0 < size)
  fixedSize : b.fixedSize.map Forest.fixedAt = b.fixedSize

namespace Box
variable {a b : Box}

theorem coherent_new : new.Coherent := ⟨.inl rfl,by decide,by decide⟩

theorem Coherent.of_inputs (coherent : a.Coherent) (same : SameInputs a b) : b.Coherent := by
  have fixed : (a.withBreak false).flags.fixed = (b.withBreak false).flags.fixed := congrArg LayoutFlags.fixed same.flags
  refine ⟨?_,?_,?_⟩
  · rw [← same.container]
    exact coherent.container
  · change (b.withBreak false).flags.fixed = _
    rw [← fixed,← same.fixedSize]
    exact coherent.fixed
  · rw [← same.fixedSize]
    exact coherent.fixedSize

theorem Coherent.resized (coherent : b.Coherent) (size : PerAxis Single) :
    { b with
      fixedSize := size.map Forest.fixedAt
      flags := { b.flags with fixed := size.map fun component => decide (0 < component) } }.Coherent := by
  have positive : ∀ component, decide (0 < Forest.fixedAt component) = decide (0 < component) := by
    intro component
    unfold Forest.fixedAt
    split
    · rfl
    · rename_i unfixed
      rw [decide_eq_false unfixed]
      decide
  have again : ∀ component, Forest.fixedAt (Forest.fixedAt component) = Forest.fixedAt component := by
    intro component
    by_cases set : 0 < component
    · simp only [Forest.fixedAt,if_pos set]
    · simp only [Forest.fixedAt,if_neg set]
      rfl
  refine ⟨coherent.container,?_,?_⟩
  · exact congrArg₂ PerAxis.mk (positive _).symm (positive _).symm
  · simp only [PerAxis.map,again]

end Box

open Forest

theorem Box.Coherent.reset {a b : Box} (coherent : a.Coherent) (reset : a.Reset b) : b.Coherent := by
  cases reset with
  | same => exact coherent
  | new => exact coherent_new
  | container directed => exact ⟨.inr directed,coherent.fixed,coherent.fixedSize⟩
  | fixedSize size => exact coherent.resized size
  | flags | margins | padding | minimumSize | maximumSize | floatingPosition | rect =>
      exact ⟨coherent.container,coherent.fixed,coherent.fixedSize⟩

-- A call that lays out keeps the inputs of every box; marking the top of a subtree again
-- as it was is no more than that.
theorem Command.inputs_laidOut {f g : Forest} {command : Command} (done : command.apply f = .ok g) (lays : command.laysOut = true)
    (key : Key) : Box.SameInputs (f.box key) (g.box key) := by
  cases command with
  | update =>
      cases done
      exact (box_layOutAt_kept f none .root key).inputs
  | updateSubtree top =>
      obtain ⟨_,rfl⟩ := updateSubtree_ok done
      have laidOut := (box_layOutAt_kept f (f.surround top) top key).inputs
      rcases box_editBox_cases (f.layOutAt (f.surround top) top) top key (·.withBreak (f.box top).flags.isBreak)
        with kept | ⟨_,marked⟩
      · rwa [kept]
      · rw [marked]
        exact ⟨laidOut.container,laidOut.flags,laidOut.margins,laidOut.padding,laidOut.fixedSize,laidOut.minimumSize,
          laidOut.maximumSize,laidOut.floatingPosition,laidOut.content⟩
  | _ => cases lays

theorem Command.coherent {f g : Forest} (linked : f.Linked) (each : ∀ key, (f.box key).Coherent) {command : Command}
    (done : command.apply f = .ok g) (key : Key) : (g.box key).Coherent := by
  by_cases lays : command.laysOut
  · exact (each key).of_inputs (Command.inputs_laidOut done lays key)
  · exact (each key).reset (Command.box_reset linked done (eq_false_of_ne_true lays) key)

theorem Forest.Reachable.coherent {f : Forest} (path : f.Reachable) (key : Key) : (f.box key).Coherent := by
  induction path generalizing key with
  | new => exact box_initial key ▸ Box.coherent_new
  | step path done ih => exact Command.coherent path.linked ih done key

end BoxLayout
