import BoxLayout.Forest.Checks
import BoxLayout.Proofs.Forest.Lasting
import BoxLayout.Proofs.Layout.Bounded

namespace BoxLayout

-- Bounds after an update, and during it.

theorem Run.checks_quiet {check : BoundsCheck} {run : Run} {axis : Axis} {span : Span} {alignment : Alignment} {wrap last : Bool}
    (member : check ∈ run.checks axis span alignment wrap last) : ¬check.Fires := by
  obtain ⟨b,_,rfl⟩ := List.mem_map.mp member
  unfold BoundsCheck.Fires
  rw [Box.violatedBounds_of_between (Box.final_between _ _)]
  exact nofun

theorem Run.checksAll_quiet {check : BoundsCheck} {axis : Axis} {span : Span} {alignment : Alignment} {wrap : Bool} {runs : List Run}
    (member : check ∈ Run.checksAll axis span alignment wrap runs) : ¬check.Fires := by
  induction runs with
  | nil => cases member
  | cons run rest ih =>
      cases rest with
      | nil => exact checks_quiet member
      | cons next rest =>
          rcases List.mem_append.mp member with here | later
          · exact checks_quiet here
          · exact ih later

theorem Box.placementChecks_quiet {check : BoundsCheck} {b : Box} {axis : Axis} {children : List Box}
    (member : check ∈ b.placementChecks axis children) : ¬check.Fires := by
  unfold Box.placementChecks at member
  dsimp only at member
  split at member
  · exact Run.checksAll_quiet member
  · cases member

namespace Tree
variable {check : BoundsCheck} {axis : Axis} {keep : Bool} {clip : Option Span} {b : Box} {t : Tree Box}

theorem arrangeChecks_quiet (member : check ∈ t.arrangeChecks axis clip b) : ¬check.Fires := by
  induction t generalizing clip b with
  | node value children ih =>
      have all : ∀ clip boxes, check ∈ arrangeChecksAll axis clip boxes children → ¬check.Fires := by
        clear member
        intro clip boxes below
        induction boxes generalizing children with
        | nil => cases children <;> cases below
        | cons b boxes more =>
            cases children with
            | nil => cases below
            | cons tree trees =>
                rcases List.mem_append.mp below with first | later
                · exact ih tree List.mem_cons_self first
                · exact more trees (fun tree inside => ih tree (List.mem_cons_of_mem _ inside)) later
      rw [arrangeChecks] at member
      rcases List.mem_append.mp member with here | below
      · exact Box.placementChecks_quiet here
      · exact all _ _ below

theorem passChecks_quiet (member : check ∈ t.passChecks keep) : ¬check.Fires := by
  rcases List.mem_append.mp member with across | down
  · exact arrangeChecks_quiet across
  · exact arrangeChecks_quiet down

theorem layOutChecks_quiet (member : check ∈ t.layOutChecks) : ¬check.Fires := by
  rcases List.mem_append.mp member with first | second
  · exact passChecks_quiet first
  · split at second
    · exact passChecks_quiet second
    · cases second

end Tree

namespace Forest
variable {f : Forest} {key : Key} {axis : Axis}

theorem within_of_mem_walk (linked : f.Linked) {fuel : Nat} {stack : List Key} (member : key ∈ f.walk fuel stack) :
    ∃ top ∈ stack, f.Within top key := by
  induction fuel generalizing stack with
  | zero =>
      unfold walk at member
      cases member
  | succ fuel ih =>
      cases stack with
      | nil => cases member
      | cons top stack =>
          unfold walk at member
          rcases List.mem_cons.mp member with rfl | later
          · exact ⟨_,List.mem_cons_self,.self⟩
          · obtain ⟨next,listed,inside⟩ := ih later
            rw [List.foldl_flip_cons_eq_append',List.mem_append,List.mem_reverse] at listed
            rcases listed with child | other
            · have under := linked.parent_of_mem_childrenBack child
              exact ⟨top,List.mem_cons_self,Within.trans (.child under .self) inside⟩
            · exact ⟨next,List.mem_cons_of_mem _ other,inside⟩

theorem attached_of_mem_descendants (linked : f.Linked) (member : key ∈ f.descendants .root) : f.Attached key := by
  unfold descendants at member
  split at member
  · obtain ⟨top,only,inside⟩ := within_of_mem_walk linked member
    obtain rfl := List.mem_singleton.mp only
    exact inside
  · cases member

theorem update_bounded (linked : f.Linked) (plain : ∀ key, f.Attached key → ∀ axis, (f.box key).Plain axis)
    (attached : f.update.Attached key) (free : f.update.exempt key = false) (axis : Axis) :
    (f.update.box key).Bounded axis := by
  obtain ⟨root,below⟩ := Box.bounded_lasting.update linked plain axis
  cases attached with
  | self => exact root rfl
  | child under inside =>
      unfold exempt at free
      rw [under] at free
      exact below inside under free

theorem verify_ok (linked : f.Linked) (bounded : ∀ key, f.Attached key → f.exempt key = false → ∀ axis, (f.box key).Bounded axis) :
    f.verify = .ok () := by
  have none : (f.descendants .root).findSome? f.violation? = none := by
    rw [List.findSome?_eq_none_iff]
    intro key member
    have attached := attached_of_mem_descendants linked member
    unfold violation?
    split
    · rfl
    · rename_i checked
      rw [List.findSome?_eq_none_iff]
      intro axis _
      have within := bounded key attached (by simpa using checked) axis
      simp only [Box.violatedBounds_of_between within,Option.map_none]
  unfold verify
  rw [none]

-- Whatever the settings, with the one exception of a fixed size that the content may
-- not be crushed below, an update respects every minimum and maximum; and of the
-- checks on the way not even that exception makes one fire.
theorem update_respects_bounds :
    (∀ f : Forest, f.Reachable →
      (∀ key, f.Attached key → ∀ axis,
        ¬(0 < (f.box key).fixedSize.get axis ∧ (f.box key).container.preventCrush.get axis = true)) →
      (∀ key, f.update.Attached key → f.update.exempt key = false → ∀ axis,
        (IsSet ((f.update.box key).effectiveMinimum axis) →
          (f.update.box key).effectiveMinimum axis ≤ (f.update.box key).extent axis) ∧
        (IsSet ((f.update.box key).maximum axis) →
          ¬(f.update.box key).maximum axis < (f.update.box key).effectiveMinimum axis →
            (f.update.box key).extent axis ≤ (f.update.box key).maximum axis)) ∧
      f.update.verify = .ok ()) ∧
    ∀ f : Forest, ∀ check ∈ f.updateChecks, ¬check.Fires := by
  refine ⟨?_,fun f check member => Tree.layOutChecks_quiet member⟩
  intro f path plain
  have bounded : ∀ key, f.update.Attached key → f.update.exempt key = false → ∀ axis, (f.update.box key).Bounded axis :=
    fun key attached free axis => update_bounded path.linked plain attached free axis
  refine ⟨?_,verify_ok ((sameLinks_update f).linked path.linked) bounded⟩
  intro key attached free axis
  obtain ⟨low,high⟩ := bounded key attached free axis
  exact ⟨low,high⟩

def crowded : Forest := after
  [.setSize .root ⟨30,30⟩,.createChild .root,.setSize ⟨1⟩ ⟨10,10⟩,.setMinimumSize ⟨1⟩ ⟨40,0⟩]

theorem plain_crowded (attached : crowded.Attached key) (axis : Axis) : (crowded.box key).Plain axis := by
  have inside : key.index < 2 := attached.contains (contains_root (reachable_after _).linked)
  have either : key = .root ∨ key = ⟨1⟩ := by
    obtain ⟨index⟩ := key
    change index < 2 at inside
    simp only [Key.root,Key.mk.injEq]
    omega
  unfold Box.Plain
  rcases either with rfl | rfl
  · cases axis <;> decide
  · cases axis <;> decide

theorem crowded_respects_bounds :
    crowded.Reachable ∧ (∀ key, crowded.Attached key → ∀ axis, (crowded.box key).Plain axis) ∧
      crowded.update.Attached ⟨1⟩ ∧ crowded.update.exempt ⟨1⟩ = false ∧
      IsSet ((crowded.update.box ⟨1⟩).effectiveMinimum .x) ∧
      (crowded.update.box ⟨1⟩).effectiveMinimum .x ≤ (crowded.update.box ⟨1⟩).extent .x ∧
      crowded.update.verify = .ok () := by
  have path : crowded.Reachable := reachable_after _
  have plain : ∀ key, crowded.Attached key → ∀ axis, (crowded.box key).Plain axis := fun _ => plain_crowded
  have attached : crowded.update.Attached ⟨1⟩ :=
    (sameLinks_update crowded).within_iff.mpr (.child (by decide) .self)
  have free : crowded.update.exempt ⟨1⟩ = false := by decide +kernel
  have set : IsSet ((crowded.update.box ⟨1⟩).effectiveMinimum .x) := by decide +kernel
  obtain ⟨bounds,verified⟩ := update_respects_bounds.1 crowded path plain
  exact ⟨path,plain,attached,free,set,(bounds _ attached free .x).1 set,verified⟩

end Forest
end BoxLayout
