import Mathlib.Algebra.Order.Field.Rat
import Mathlib.Order.Interval.Set.Basic
import BoxLayout.Forest.Query
import BoxLayout.Proofs.Forest.Children
import BoxLayout.Proofs.Forest.Reachable
import BoxLayout.Proofs.Number.Holds

namespace BoxLayout

-- Measured content on whole coordinates is exact: the union of two rectangles is worked out
-- without rounding, and what contains it is what contains both.

namespace Rect
variable {r s : Rect} {low high low' high' : Axis → Int} {rects : List Rect}

def points (r : Rect) : Set (Axis → ℚ) :=
  Set.Icc (fun axis => (r.start axis).value) fun axis => (r.start axis).value + (r.extent axis).value

structure Spans (r : Rect) (low high : Axis → Int) : Prop where
  start : ∀ axis, (r.start axis).Holds (low axis)
  extent : ∀ axis, (r.extent axis).Holds (high axis - low axis)
  ordered : ∀ axis, low axis ≤ high axis
  bounded : ∀ axis, -2 ^ 22 ≤ low axis ∧ high axis ≤ 2 ^ 22

namespace Spans

theorem finish (spans : r.Spans low high) (axis : Axis) : (r.finish axis).Holds (high axis) := by
  have ordered := spans.ordered axis
  have bounded := spans.bounded axis
  have sum := (spans.start axis).add (spans.extent axis) (by omega) (by omega) (by omega)
  rwa [Int.add_comm,Int.sub_add_cancel] at sum

theorem union (one : r.Spans low high) (two : s.Spans low' high') :
    (r.union s).Spans (fun axis => min (low axis) (low' axis)) fun axis => max (high axis) (high' axis) := by
  have small : ∀ axis, -2 ^ 22 ≤ min (low axis) (low' axis) ∧ max (high axis) (high' axis) ≤ 2 ^ 22 ∧
      min (low axis) (low' axis) ≤ max (high axis) (high' axis) := by
    intro axis
    have first := one.bounded axis
    have second := two.bounded axis
    have ordered := one.ordered axis
    omega
  have start : ∀ axis, ((r.union s).start axis).Holds (min (low axis) (low' axis)) := by
    intro axis
    rw [Rect.union,ofEdges,Rect.start,PerAxis.get_ofAxis]
    exact (one.start axis).min (two.start axis)
  refine ⟨start,fun axis => ?_,fun axis => (small axis).2.2,fun axis => ⟨(small axis).1,(small axis).2.1⟩⟩
  obtain ⟨least,most,ordered⟩ := small axis
  rw [Rect.union,ofEdges,Rect.extent,PerAxis.get_ofAxis]
  exact ((one.finish axis).max (two.finish axis)).sub ((one.start axis).min (two.start axis)) (by omega) (by omega) (by omega)

theorem points_eq (spans : r.Spans low high) :
    r.points = Set.Icc (fun axis => (low axis : ℚ)) fun axis => (high axis : ℚ) := by
  have edge : ∀ axis, (r.start axis).value + (r.extent axis).value = high axis := by
    intro axis
    rw [(spans.start axis).value,(spans.extent axis).value,Int.cast_sub]
    exact add_sub_cancel ..
  unfold points
  simp only [edge]
  simp only [(spans.start _).value]

theorem points_subset_iff (spans : r.Spans low high) {first last : Axis → ℚ} :
    r.points ⊆ Set.Icc first last ↔ ∀ axis, first axis ≤ low axis ∧ (high axis : ℚ) ≤ last axis := by
  have ordered : (fun axis => (low axis : ℚ)) ≤ fun axis => (high axis : ℚ) := fun axis => Int.cast_le.mpr (spans.ordered axis)
  rw [spans.points_eq,Set.Icc_subset_Icc_iff ordered,Pi.le_def,Pi.le_def,forall_and]

end Spans

def OnWholes (r : Rect) : Prop := ∃ low high, r.Spans low high

theorem OnWholes.union (one : r.OnWholes) (two : s.OnWholes) : (r.union s).OnWholes := by
  obtain ⟨_,_,one⟩ := one
  obtain ⟨_,_,two⟩ := two
  exact ⟨_,_,one.union two⟩

theorem OnWholes.union_subset_iff (one : r.OnWholes) (two : s.OnWholes) {first last : Axis → ℚ} :
    (r.union s).points ⊆ Set.Icc first last ↔ r.points ⊆ Set.Icc first last ∧ s.points ⊆ Set.Icc first last := by
  obtain ⟨low,high,one⟩ := one
  obtain ⟨low',high',two⟩ := two
  rw [(one.union two).points_subset_iff,one.points_subset_iff,two.points_subset_iff,← forall_and]
  refine forall_congr' fun axis => ?_
  push_cast
  rw [le_min_iff,max_le_iff,and_and_and_comm]

-- Induction on the rectangles left to join; the one reached stays on whole coordinates.
theorem foldl_union (first : r.OnWholes) (wholes : ∀ s ∈ rects, s.OnWholes) : (rects.foldl Rect.union r).OnWholes ∧
    ∀ low high, (rects.foldl Rect.union r).points ⊆ Set.Icc low high ↔ ∀ s ∈ r :: rects, s.points ⊆ Set.Icc low high := by
  induction rects generalizing r with
  | nil => exact ⟨first,fun low high => by simp⟩
  | cons s rest ih =>
      have next := wholes s List.mem_cons_self
      obtain ⟨whole,subset⟩ := ih (first.union next) fun t member => wholes t (List.mem_cons_of_mem _ member)
      refine ⟨whole,fun low high => ?_⟩
      rw [List.foldl_cons,subset]
      simp only [List.forall_mem_cons,first.union_subset_iff next,and_assoc]

theorem OnWholes.same (one : r.OnWholes) (two : s.OnWholes)
    (alike : ∀ low high, r.points ⊆ Set.Icc low high ↔ s.points ⊆ Set.Icc low high) : r.Same s := by
  obtain ⟨low,high,one⟩ := one
  obtain ⟨low',high',two⟩ := two
  have inside := two.points_subset_iff.mp ((alike _ _).mp one.points_eq.le)
  have around := one.points_subset_iff.mp ((alike _ _).mpr two.points_eq.le)
  have equal : ∀ axis, low axis = low' axis ∧ high axis = high' axis := by
    intro axis
    have first := inside axis
    have second := around axis
    exact_mod_cast And.intro (le_antisymm first.1 second.1) (le_antisymm second.2 first.2)
  have start : ∀ axis, (r.start axis).Same (s.start axis) := fun axis =>
    Single.same_iff.mpr ⟨_,one.start axis,by rw [(equal axis).1]; exact two.start axis⟩
  have extent : ∀ axis, (r.extent axis).Same (s.extent axis) := fun axis =>
    Single.same_iff.mpr ⟨_,one.extent axis,by rw [(equal axis).1,(equal axis).2]; exact two.extent axis⟩
  exact ⟨⟨start .x,start .y⟩,extent .x,extent .y⟩

end Rect

namespace Box
variable {b : Box}

def measured (b : Box) (axis : Axis) : Single :=
  if 0 < b.fixedSize.get axis then b.fixedSize.get axis else b.extent axis

def marginBox (b : Box) : Set (Axis → ℚ) :=
  Set.Icc (fun axis => (b.start axis).value - (b.margins.start axis).value) fun axis =>
    (b.start axis).value + (b.measured axis).value + (b.margins.finish axis).value

-- Whole coordinates up to 2 ^ 20, and neither a size nor a margin below zero.
structure OnGrid (b : Box) : Prop where
  start : ∀ axis, ∃ n : Int, n.natAbs ≤ 2 ^ 20 ∧ (b.start axis).Holds n
  measured : ∀ axis, ∃ n : Nat, n ≤ 2 ^ 20 ∧ (b.measured axis).Holds n
  before : ∀ axis, ∃ n : Nat, n ≤ 2 ^ 20 ∧ (b.margins.start axis).Holds n
  after : ∀ axis, ∃ n : Nat, n ≤ 2 ^ 20 ∧ (b.margins.finish axis).Holds n

theorem OnGrid.spans (grid : b.OnGrid) : ∃ low high, b.measuredRect.Spans low high ∧
    b.marginBox = Set.Icc (fun axis => (low axis : ℚ)) fun axis => (high axis : ℚ) := by
  choose start near start_eq using grid.start
  choose size few size_eq using grid.measured
  choose before low before_eq using grid.before
  choose after high after_eq using grid.after
  refine ⟨fun axis => start axis - before axis,fun axis => start axis + size axis + after axis,⟨fun axis => ?_,fun axis => ?_,fun axis => ?_,fun axis => ?_⟩,?_⟩
  · have near := near axis
    have low := low axis
    rw [measuredRect,Rect.outset,Rect.start,PerAxis.get_ofAxis]
    exact (start_eq axis).sub (before_eq axis) (by omega) (by omega) (by omega)
  · have few := few axis
    have low := low axis
    have high := high axis
    rw [measuredRect,Rect.outset,Rect.extent,PerAxis.get_ofAxis,Rect.extent,PerAxis.get_ofAxis]
    have sides : (b.margins.total axis).Holds (before axis + after axis) :=
      (before_eq axis).add (after_eq axis) (by omega) (by omega) (by omega)
    have whole : start axis + size axis + after axis - (start axis - before axis) = size axis + (before axis + after axis) := by omega
    rw [whole]
    exact Single.Holds.add (size_eq axis) sides (by omega) (by omega) (by omega)
  · omega
  · have near := near axis
    have few := few axis
    have low := low axis
    have high := high axis
    omega
  · unfold marginBox
    simp only [(start_eq _).value,(size_eq _).value,(before_eq _).value,(after_eq _).value]
    push_cast
    rfl

theorem OnGrid.points (grid : b.OnGrid) : b.measuredRect.points = b.marginBox := by
  obtain ⟨low,high,spans,equal⟩ := grid.spans
  rw [spans.points_eq,equal]

theorem OnGrid.onWholes (grid : b.OnGrid) : b.measuredRect.OnWholes := by
  obtain ⟨low,high,spans,_⟩ := grid.spans
  exact ⟨low,high,spans⟩

end Box

namespace Forest
variable {f g : Forest} {key key' : Key}

theorem measureContent_eq (present : f.Contains key) :
    f.measureContent key = .ok (match (f.children key).map fun child => (f.box child).measuredRect with
      | [] => none
      | first :: rest => some (rest.foldl Rect.union first)) := by
  unfold measureContent
  rw [validate_of_contains present]
  cases (f.children key).map fun child => (f.box child).measuredRect <;> rfl

theorem measureContent_subset (present : f.Contains key) (grid : ∀ b ∈ (f.children key).map f.box, b.OnGrid)
    (parent : f.children key ≠ []) : ∃ r, f.measureContent key = .ok (some r) ∧ r.OnWholes ∧ ∀ low high,
      r.points ⊆ Set.Icc low high ↔ ∀ b ∈ (f.children key).map f.box, b.marginBox ⊆ Set.Icc low high := by
  cases listed : (f.children key).map f.box with
  | nil => exact absurd (List.map_eq_nil_iff.mp listed) parent
  | cons first rest =>
      rw [listed] at grid
      have wholes : ∀ s ∈ rest.map Box.measuredRect, s.OnWholes :=
        List.forall_mem_map.mpr fun b member => (grid b (List.mem_cons_of_mem _ member)).onWholes
      obtain ⟨whole,subset⟩ := Rect.foldl_union (grid first List.mem_cons_self).onWholes wholes
      refine ⟨_,?_,whole,fun low high => ?_⟩
      · rw [measureContent_eq present,← Function.comp_def Box.measuredRect f.box,← List.map_map,listed]
        rfl
      · rw [subset,← List.map_cons,List.forall_mem_map]
        exact forall₂_congr fun b member => by rw [(grid b member).points]

theorem measureContent_none (present : f.Contains key) : f.measureContent key = .ok none ↔ f.children key = [] := by
  rw [measureContent_eq present]
  cases f.children key <;> simp

-- Without children there is nothing to measure. On whole coordinates the content is the
-- smallest box around the children, each with its margins, in whatever order they come.
theorem measureContent_smallest (path : f.Reachable) (present : f.Contains key) :
    (f.measureContent key = .ok none ↔ ∀ child, (f.links child).parent ≠ some key) ∧
      ((∃ child, (f.links child).parent = some key) → (∀ child, (f.links child).parent = some key → (f.box child).OnGrid) →
        ∃ r, f.measureContent key = .ok (some r) ∧
          IsLeast {region | (∃ low high, region = Set.Icc low high) ∧
            ∀ child, (f.links child).parent = some key → (f.box child).marginBox ⊆ region} r.points ∧
          ∀ (g : Forest) (other : Key), g.Contains other → ((g.children other).map g.box).Perm ((f.children key).map f.box) →
            ∃ r', g.measureContent other = .ok (some r') ∧ r'.Same r) := by
  have children : ∀ child, child ∈ f.children key ↔ (f.links child).parent = some key := fun _ => path.linked.mem_children
  simp only [← children]
  constructor
  · simp only [measureContent_none present,List.eq_nil_iff_forall_not_mem,children,ne_eq]
  rintro ⟨child,member⟩ grid
  have parent : f.children key ≠ [] := List.ne_nil_of_mem member
  obtain ⟨r,measured,whole,subset⟩ := measureContent_subset present (List.forall_mem_map.mpr grid) parent
  refine ⟨r,measured,⟨⟨⟨_,_,rfl⟩,?_⟩,?_⟩,?_⟩
  · exact List.forall_mem_map.mp ((subset _ _).mp subset_rfl)
  · rintro _ ⟨⟨low,high,rfl⟩,around⟩
    exact (subset low high).mpr (List.forall_mem_map.mpr around)
  · intro g other present' reordered
    have grid' : ∀ b ∈ (g.children other).map g.box, b.OnGrid := fun b member =>
      List.forall_mem_map.mpr grid b (reordered.mem_iff.mp member)
    have parent' : g.children other ≠ [] := by
      intro none
      rw [none,List.map_nil,List.nil_perm,List.map_eq_nil_iff] at reordered
      exact parent reordered
    obtain ⟨r',measured',whole',subset'⟩ := measureContent_subset present' grid' parent'
    refine ⟨r',measured',whole'.same whole fun low high => ?_⟩
    rw [subset,subset']
    exact forall_congr' fun b => imp_congr_left reordered.mem_iff

def cutDown : Forest := after
  [.createChild .root,.setRect ⟨1⟩ (.ofNumbers (-7) 3 20 40),.setMargins ⟨1⟩ ⟨2,0,5,1⟩,
    .createChild .root,.setRect ⟨2⟩ (.ofNumbers 4 30 12 6),.setSize ⟨2⟩ ⟨64,unset⟩]

theorem measureContent_cutDown : cutDown.Reachable ∧ cutDown.Contains .root ∧
    (cutDown.measureContent .root = .ok none ↔ ∀ child, (cutDown.links child).parent ≠ some .root) ∧
    (∃ child, (cutDown.links child).parent = some .root) ∧
    (∀ child, (cutDown.links child).parent = some .root → (cutDown.box child).OnGrid) ∧
    IsLeast {region | (∃ low high, region = Set.Icc low high) ∧
      ∀ child, (cutDown.links child).parent = some .root → (cutDown.box child).marginBox ⊆ region}
        (Rect.ofNumbers (-9) 3 77 41).points := by
  have path : cutDown.Reachable := reachable_after _
  have present : cutDown.Contains .root := contains_root path.linked
  have parent : ∃ child, (cutDown.links child).parent = some .root := ⟨⟨1⟩,by decide +kernel⟩
  have listed : cutDown.children .root = [⟨1⟩,⟨2⟩] := by decide +kernel
  have first : (cutDown.box ⟨1⟩).OnGrid := {
    start := fun | .x => ⟨-7,by decide +kernel⟩ | .y => ⟨3,by decide +kernel⟩
    measured := fun | .x => ⟨20,by decide +kernel⟩ | .y => ⟨40,by decide +kernel⟩
    before := fun | .x => ⟨2,by decide +kernel⟩ | .y => ⟨0,by decide +kernel⟩
    after := fun | .x => ⟨5,by decide +kernel⟩ | .y => ⟨1,by decide +kernel⟩ }
  have second : (cutDown.box ⟨2⟩).OnGrid := {
    start := fun | .x => ⟨4,by decide +kernel⟩ | .y => ⟨30,by decide +kernel⟩
    measured := fun | .x => ⟨64,by decide +kernel⟩ | .y => ⟨6,by decide +kernel⟩
    before := fun | .x | .y => ⟨0,by decide +kernel⟩
    after := fun | .x | .y => ⟨0,by decide +kernel⟩ }
  have grid : ∀ child, (cutDown.links child).parent = some .root → (cutDown.box child).OnGrid := by
    intro child under
    rw [← path.linked.mem_children,listed,List.mem_pair] at under
    rcases under with rfl | rfl
    · exact first
    · exact second
  obtain ⟨none,some⟩ := measureContent_smallest path present
  obtain ⟨r,measured,smallest,_⟩ := some parent grid
  have found : cutDown.measureContent .root = .ok (.some (.ofNumbers (-9) 3 77 41)) := by decide +kernel
  rw [found] at measured
  cases measured
  exact ⟨path,present,none,parent,grid,smallest⟩

end Forest
end BoxLayout
