import BoxLayout.Forest.Query
import BoxLayout.Proofs.Forest.RunEnds

namespace BoxLayout
open Single

-- A container that constrains its children cuts each off where its own content ends.

namespace Box

theorem extent_clippedTo (b : Box) (axis : Axis) (span : Span) :
    ¬(span.finish - b.start axis).positivePart < (b.clippedTo axis (some span)).extent axis := by
  unfold clippedTo
  dsimp only
  split
  · rw [extent_withExtent,if_pos rfl]
    intro less
    exact not_lt_of_le (le_of_lt less) less
  · assumption

end Box

namespace Forest
variable {f : Forest} {key parent child : Key}

theorem find_of_contains (present : f.Contains key) : ∃ control, f.find key = .ok control ∧ control.box = f.box key := by
  obtain ⟨control,there⟩ := controls_of_contains present
  exact ⟨control,by simp only [find,there],by simp only [box,there]⟩

theorem rect_of_contains (present : f.Contains key) : f.rect key = .ok (f.box key).rect := by
  obtain ⟨control,found,same⟩ := find_of_contains present
  rw [← same]
  exact Result.bind_ok.mpr ⟨control,found,rfl⟩

theorem contentRect_of_contains (present : f.Contains key) : f.contentRect key = .ok (f.box key).contentRect := by
  obtain ⟨control,found,same⟩ := find_of_contains present
  rw [← same]
  exact Result.bind_ok.mpr ⟨control,found,rfl⟩

-- The clip is the last that an update does to a child on an axis, and by then the container
-- is where it stays: what the other axis or a second pass writes leaves both alone.
theorem clipped_update (linked : f.Linked) (attached : f.Attached parent) (constrains : (f.box parent).container.constrainSize = true)
    (under : (f.links child).parent = some parent) (axis : Axis) :
    ¬(((f.update.box parent).contentSpan axis).finish - (f.update.box child).start axis).positivePart < (f.update.box child).extent axis := by
  have clip : ((f.lastPlaced axis).box parent).clip axis = some ((f.update.box parent).contentSpan axis) := by
    rw [clip_lastPlaced linked attached axis,Box.clip,← (update_kept linked attached).inputs.container,if_pos constrains]
  have member : (f.lastPlaced axis).box child ∈ (f.children parent).map (f.lastPlaced axis).box :=
    List.mem_map_of_mem (linked.mem_children.mpr under)
  rw [(arranged_lastPlaced linked attached axis).children,← Box.clip,clip] at member
  obtain ⟨b,_,written⟩ := List.mem_map.mp member
  have still := lastPlaced_sameOn linked (.child under attached) axis
  rw [← still.start,← still.extent,← written,Box.start_clippedTo]
  exact b.extent_clippedTo axis _

-- Whatever minimum, fixed size or fill a child asks for, in flow, stacked or floating, and
-- however the container was clipped itself: it reads back no larger than what the content of
-- the container leaves past its start, or nothing.
theorem constrained_clipped (path : f.Reachable) (attached : f.Attached child) (under : (f.links child).parent = some parent)
    (constrains : (f.box parent).container.constrainSize = true) :
    ∃ content rect, f.update.contentRect parent = .ok content ∧ f.update.rect child = .ok rect ∧
      ∀ axis, ¬(content.finish axis - rect.start axis).positivePart < rect.extent axis := by
  have linked := path.linked
  have present := fun {key : Key} (inside : f.Attached key) =>
    ((sameLinks_update f).contains_iff key).mpr (linked.contains_attached inside)
  have above := linked.attached_parent attached under
  exact ⟨_,_,contentRect_of_contains (present above),rect_of_contains (present attached),clipped_update linked above constrains under⟩

def cutOff : Forest := after
  [.setContainerFlags .root (.ofWord 33),.setSize .root ⟨100,100⟩,.setPadding .root (.uniform 10),
    .createChild .root,.setContainerFlags ⟨1⟩ (.ofWord 34),.setSize ⟨1⟩ ⟨200,40⟩,.setPadding ⟨1⟩ (.uniform 5),
    .createChild ⟨1⟩,.setLayoutFlags ⟨2⟩ (.ofWord 3),.setMinimumSize ⟨2⟩ ⟨300,50⟩,
    .createChild ⟨1⟩,.setLayoutFlags ⟨3⟩ (.ofWord 2048),.setSize ⟨3⟩ ⟨90,500⟩,
    .createChild ⟨1⟩,.setLayoutFlags ⟨4⟩ (.ofWord 1024),.setFloatingPosition ⟨4⟩ ⟨150,20⟩,.setSize ⟨4⟩ ⟨60,60⟩]

theorem constrained_clipped_cutOff : cutOff.Reachable ∧ (cutOff.box ⟨1⟩).container.constrainSize = true ∧
    (∀ child ∈ ([⟨2⟩,⟨3⟩,⟨4⟩] : List Key), (cutOff.links child).parent = some ⟨1⟩ ∧ ∃ content rect,
      cutOff.update.contentRect ⟨1⟩ = .ok content ∧ cutOff.update.rect child = .ok rect ∧
        ∀ axis, ¬(content.finish axis - rect.start axis).positivePart < rect.extent axis) ∧
    [⟨1⟩,⟨2⟩,⟨3⟩,⟨4⟩].map (fun key => (cutOff.update.box key).rect) =
      [.ofNumbers 10 30 80 40,.ofNumbers 15 35 70 30,.ofNumbers 15 35 70 30,.ofNumbers 165 55 0 10] := by
  have path : cutOff.Reachable := reachable_after _
  have constrains : (cutOff.box ⟨1⟩).container.constrainSize = true := by decide +kernel
  have under : ∀ child ∈ ([⟨2⟩,⟨3⟩,⟨4⟩] : List Key), (cutOff.links child).parent = some ⟨1⟩ := by decide +kernel
  have attached : ∀ child ∈ ([⟨2⟩,⟨3⟩,⟨4⟩] : List Key), cutOff.Attached child := fun child member =>
    .child (under child member) (.child (by decide +kernel : (cutOff.links ⟨1⟩).parent = some .root) .self)
  exact ⟨path,constrains,fun child member => ⟨under child member,
    constrained_clipped path (attached child member) (under child member) constrains⟩,by decide +kernel⟩

end Forest
end BoxLayout
