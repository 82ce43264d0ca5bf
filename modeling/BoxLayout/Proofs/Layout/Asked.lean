import BoxLayout.Proofs.Layout.Passes

namespace BoxLayout

-- The boxes a layout asks whether they are fixed, as they stand when it asks. Sizing
-- looks at the fixed size and placing on runs at the marker; here both are listed.

def Box.placingAsked (b : Box) (axis : Axis) (children : List Box) : List Box :=
  let wrap := b.arrangement.wraps
  let children := if wrap then children.map (·.withBreak false) else children
  if b.arrangement.primaryAxis? = some axis then
    (Run.build axis (b.contentSpan axis).space wrap .empty children).flatMap fun run => run.members.filter (·.flags.inFlow)
  else []

namespace Tree

mutual
def sizingAsked (axis : Axis) (keepColumns kept : Bool) : Tree Box → List Box
  | .node b children =>
      sizingAskedAll axis keepColumns (keepColumns && b.arrangement = .columnWrap) children ++
        [(b.releaseBreak axis kept).withStart axis (b.margins.start axis)]
def sizingAskedAll (axis : Axis) (keepColumns kept : Bool) : List (Tree Box) → List Box
  | [] => []
  | tree :: rest => sizingAsked axis keepColumns kept tree ++ sizingAskedAll axis keepColumns kept rest
end

mutual
def arrangingAsked (axis : Axis) (clip : Option Span) (b : Box) : Tree Box → List Box
  | .node _ children =>
      let b := b.clippedTo axis clip
      let span := b.contentSpan axis
      let placed := (b.placeChildren axis (children.map value)).map fun child =>
        if child.flags.floating then child.floatedIn axis span else child
      b.placingAsked axis (children.map value) ++
        arrangingAskedAll axis (if b.container.constrainSize then some span else none) placed children
def arrangingAskedAll (axis : Axis) (clip : Option Span) : List Box → List (Tree Box) → List Box
  | b :: boxes,tree :: trees => arrangingAsked axis clip b tree ++ arrangingAskedAll axis clip boxes trees
  | _,_ => []
end

def passAxisAsked (keepColumns : Bool) (around : Option Surround) (axis : Axis) (tree : Tree Box) : List (Axis × Box) :=
  let sized := tree.sized axis keepColumns false
  let clip := around.bind fun parent => if parent.clips then some (parent.span.get axis) else none
  (tree.sizingAsked axis keepColumns false ++
    sized.arrangingAsked axis clip (rooted around axis (tree.value.start axis) sized.value)).map (axis,·)

def passAsked (keepColumns : Bool) (around : Option Surround) (tree : Tree Box) : List (Axis × Box) :=
  tree.passAxisAsked keepColumns around .x ++ (tree.passAxis keepColumns around .x).passAxisAsked keepColumns around .y

def layOutAsked (around : Option Surround) (tree : Tree Box) : List (Axis × Box) :=
  let first := tree.pass false around
  tree.passAsked false around ++ if first.columnBroke then first.passAsked true around else []

end Tree

-- What the writes of a layout keep, every box asked has, if all had it at first.
section Kept
variable {P : Box → Prop} (kept : ∀ {a b : Box}, Box.SameKept a b → P a → P b)
include kept

theorem Box.of_mem_placingAsked {b asked : Box} {axis : Axis} {children : List Box} (each : ∀ child ∈ children, P child)
    (member : asked ∈ b.placingAsked axis children) : P asked := by
  have seating := ((Box.SameKept.writing axis).placing b.container).toSeating
  have released : List.Forall₂ Box.SameKept children
      (if b.arrangement.wraps then children.map (·.withBreak false) else children) := by
    split
    · exact List.forall₂_map_right_iff.mpr (List.forall₂_same.mpr fun child _ => seating.withBreak (.refl child) false)
    · exact List.forall₂_same.mpr fun child _ => .refl child
  unfold placingAsked at member
  dsimp only at member
  split at member
  · obtain ⟨run,built,inside⟩ := List.mem_flatMap.mp member
    obtain ⟨xss,joined,runs⟩ := seating.build (b.contentSpan axis).space b.arrangement.wraps .empty [] .nil released
    obtain ⟨xs,listed,related⟩ := Tree.related_of_mem runs built
    obtain ⟨child,found,same⟩ := Tree.related_of_mem related (List.mem_of_mem_filter inside)
    have original : child ∈ children := by
      rw [← List.nil_append children,← joined]
      exact List.mem_flatten.mpr ⟨xs,listed,found⟩
    exact kept same (each child original)
  · cases member

namespace Tree
variable {t : Tree Box} {asked : Box}

theorem of_mem_sizingAsked {axis : Axis} {keep released : Bool} (each : ∀ b ∈ t.preorder, P b)
    (member : asked ∈ t.sizingAsked axis keep released) : P asked := by
  induction t generalizing released with
  | node value children ih =>
      rw [preorder_node,List.forall_mem_cons] at each
      obtain ⟨here,below⟩ := each
      have all : ∀ released, asked ∈ sizingAskedAll axis keep released children → P asked := by
        clear member
        intro released inside
        induction children with
        | nil => cases inside
        | cons tree trees more =>
            simp only [List.flatMap_cons,List.forall_mem_append] at below
            rcases List.mem_append.mp inside with first | later
            · exact ih tree List.mem_cons_self below.1 first
            · exact more (fun tree listed => ih tree (List.mem_cons_of_mem _ listed)) below.2 later
      rcases List.mem_append.mp member with inside | last
      · exact all _ inside
      · rw [List.mem_singleton.mp last]
        have writing := Box.SameKept.writing axis
        exact kept (writing.withStart (writing.releaseBreak (.refl value) released) _) here

theorem of_mem_arrangingAsked {axis : Axis} {clip : Option Span} {b : Box} (each : ∀ b ∈ t.preorder, P b)
    (member : asked ∈ t.arrangingAsked axis clip b) : P asked := by
  induction t generalizing clip b with
  | node value children ih =>
      rw [preorder_node,List.forall_mem_cons] at each
      have below := each.2
      have values : ∀ child ∈ children.map Tree.value, P child := by
        intro child listed
        obtain ⟨tree,inside,rfl⟩ := List.mem_map.mp listed
        exact below _ (List.mem_flatMap.mpr ⟨tree,inside,value_mem_preorder tree⟩)
      have all : ∀ clip boxes, asked ∈ arrangingAskedAll axis clip boxes children → P asked := by
        clear member values each
        intro clip boxes inside
        induction boxes generalizing children with
        | nil => cases children <;> cases inside
        | cons b boxes more =>
            cases children with
            | nil => cases inside
            | cons tree trees =>
                simp only [List.flatMap_cons,List.forall_mem_append] at below
                rcases List.mem_append.mp inside with first | later
                · exact ih tree List.mem_cons_self below.1 first
                · exact more trees (fun tree listed => ih tree (List.mem_cons_of_mem _ listed)) below.2 later
      rcases List.mem_append.mp member with here | inside
      · exact Box.of_mem_placingAsked kept values here
      · exact all _ _ inside

theorem of_mem_passAxisAsked {axis : Axis} {keep : Bool} {around : Option Surround} {row : Axis × Box}
    (each : ∀ b ∈ t.preorder, P b) (member : row ∈ t.passAxisAsked keep around axis) : P row.2 := by
  obtain ⟨asked,inside,rfl⟩ := List.mem_map.mp member
  rcases List.mem_append.mp inside with sizing | arranging
  · exact of_mem_sizingAsked kept each sizing
  · exact of_mem_arrangingAsked kept ((sized_kept t axis keep false).all each kept) arranging

theorem of_mem_passAsked {keep : Bool} {around : Option Surround} {row : Axis × Box} (each : ∀ b ∈ t.preorder, P b)
    (member : row ∈ t.passAsked keep around) : P row.2 := by
  rcases List.mem_append.mp member with across | down
  · exact of_mem_passAxisAsked kept each across
  · exact of_mem_passAxisAsked kept ((passAxis_kept t keep around .x).all each kept) down

theorem of_mem_layOutAsked {around : Option Surround} {row : Axis × Box} (each : ∀ b ∈ t.preorder, P b)
    (member : row ∈ t.layOutAsked around) : P row.2 := by
  rcases List.mem_append.mp member with first | second
  · exact of_mem_passAsked kept each first
  · split at second
    · exact of_mem_passAsked kept ((pass_keeps t false around).all each kept) second
    · cases second

end Tree

end Kept

end BoxLayout
