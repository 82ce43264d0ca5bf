import BoxLayout.Proofs.Context
import BoxLayout.Proofs.Layout.Unwrapped

namespace BoxLayout

-- Children out of the flow of their container. It places the others as if any such
-- child stood there, and where its size is fixed nothing above it sees them either.

def Blind {α : Type} (Out : α → Prop) (op : List α → List α) : Prop :=
  ∀ before after, ∃ before' after', before'.length = before.length ∧
    ∀ a, Out a → ∃ a', Out a' ∧ op (before ++ a :: after) = before' ++ a' :: after'

namespace Blind
variable {α : Type} {Out : α → Prop} {first second : List α → List α} {change : α → α}

theorem comp (two : Blind Out second) (one : Blind Out first) : Blind Out (fun xs => second (first xs)) := by
  intro before after
  obtain ⟨before',after',size,placed⟩ := one before after
  obtain ⟨before'',after'',size',placed'⟩ := two before' after'
  refine ⟨before'',after'',size'.trans size,fun a out => ?_⟩
  obtain ⟨a',out',same⟩ := placed a out
  obtain ⟨a'',out'',same'⟩ := placed' a' out'
  exact ⟨a'',out'',(congrArg second same).trans same'⟩

theorem map (kept : ∀ a, Out a → Out (change a)) : Blind Out (List.map change) := by
  intro before after
  refine ⟨before.map change,after.map change,List.length_map _,fun a out => ⟨change a,kept a out,?_⟩⟩
  rw [List.map_append,List.map_cons]

end Blind

theorem forall₂_around {α β : Type} {R : α → β → Prop} {before after : List α} {a : α} {ys : List β}
    (related : List.Forall₂ R (before ++ a :: after) ys) :
    ∃ front b back, ys = front ++ b :: back ∧ front.length = before.length ∧ R a b := by
  induction before generalizing ys with
  | nil =>
      cases related with
      | cons one _ => exact ⟨[],_,_,rfl,rfl,one⟩
  | cons first rest ih =>
      cases related with
      | cons _ more =>
          obtain ⟨front,b,back,rfl,size,one⟩ := ih more
          exact ⟨_ :: front,b,back,rfl,congrArg Nat.succ size,one⟩

namespace Run
variable (axis : Axis) (space : Single) (wrap : Bool) {Out : Box → Prop}

def withMembers (run : Run) (members : List Box) : Run := { run with members := members }

theorem build_past (run : Run) (ones others : List Box) (rest : List Box) :
    ∃ (run' : Run) (others' : List Box) (back : List Run), ∀ a,
      build axis space wrap (run.withMembers (ones ++ a :: others)) rest =
        run'.withMembers (ones ++ a :: others') :: back := by
  induction rest generalizing run others with
  | nil => exact ⟨run,others,[],fun a => rfl⟩
  | cons b rest ih =>
      have joined : ∀ a, ones ++ a :: (others ++ [b]) = ones ++ a :: others ++ [b] := fun a => by simp
      by_cases flows : b.flags.inFlow = false
      · obtain ⟨run',others',back,built⟩ := ih run (others ++ [b])
        refine ⟨run',others',back,fun a => ?_⟩
        rw [← built a,joined]
        exact if_pos flows
      · by_cases ends : wrap = true ∧ run.Ends axis space b
        · exact ⟨run,others,build axis space wrap (empty.accept axis (b.withBreak true)) rest,fun a =>
            (if_neg flows).trans (if_pos ends)⟩
        · obtain ⟨run',others',back,built⟩ := ih (run.accept axis b) (others ++ [b])
          refine ⟨run',others',back,fun a => ?_⟩
          rw [← built a,joined]
          exact (if_neg flows).trans (if_neg ends)

theorem build_around (run : Run) (before after : List Box) :
    ∃ (front : List Run) (run' : Run) (ones others : List Box) (back : List Run),
      (front.flatMap members ++ ones).length = run.members.length + before.length ∧
        ∀ a : Box, a.flags.inFlow = false → build axis space wrap run (before ++ a :: after) =
          front ++ run'.withMembers (ones ++ a :: others) :: back := by
  induction before generalizing run with
  | nil =>
      obtain ⟨run',others,back,built⟩ := build_past axis space wrap run run.members [] after
      refine ⟨[],run',run.members,others,back,rfl,fun a out => ?_⟩
      rw [List.nil_append,List.nil_append,← built a]
      exact if_pos out
  | cons b rest ih =>
      have longer : ∀ run' : Run, run'.members.length = run.members.length + 1 →
          run'.members.length + rest.length = run.members.length + (b :: rest).length := by
        intro run' more
        rw [more,List.length_cons]
        omega
      by_cases flows : b.flags.inFlow = false
      · obtain ⟨front,run',ones,others,back,size,built⟩ := ih (run.pass b)
        refine ⟨front,run',ones,others,back,size.trans (longer _ ?_),fun a out => ?_⟩
        · exact List.length_append
        · rw [← built a out]
          exact if_pos flows
      · by_cases ends : wrap = true ∧ run.Ends axis space b
        · obtain ⟨front,run',ones,others,back,size,built⟩ := ih (empty.accept axis (b.withBreak true))
          refine ⟨run :: front,run',ones,others,back,?_,fun a out => ?_⟩
          · rw [List.flatMap_cons,List.append_assoc,List.length_append,size]
            exact congrArg _ (Nat.add_comm 1 _)
          · rw [List.cons_append,List.cons_append,← built a out]
            exact (if_neg flows).trans (if_pos ends)
        · obtain ⟨front,run',ones,others,back,size,built⟩ := ih (run.accept axis b)
          refine ⟨front,run',ones,others,back,size.trans (longer _ ?_),fun a out => ?_⟩
          · exact List.length_append
          · rw [← built a out]
            exact (if_neg flows).trans (if_neg ends)

theorem length_placeFrom (shares : Shares) (bonus cursor gap : Single) (xs : List Box) :
    (shares.placeFrom axis bonus cursor gap xs).length = xs.length := by
  rw [← List.length_map Box.bothFlags,Box.flags_placeFrom,List.length_map]

theorem placeFrom_around (shares : Shares) (bonus cursor gap : Single) (ones others : List Box) :
    ∃ ones' others' : List Box, ones'.length = ones.length ∧ ∀ a : Box, a.flags.inFlow = false →
      shares.placeFrom axis bonus cursor gap (ones ++ a :: others) = ones' ++ a :: others' := by
  induction ones generalizing cursor gap with
  | nil => exact ⟨[],shares.placeFrom axis bonus cursor gap others,rfl,fun a out => if_pos out⟩
  | cons b rest ih =>
      by_cases flows : b.flags.inFlow = false
      · obtain ⟨ones',others',size,placed⟩ := ih cursor gap
        refine ⟨b :: ones',others',congrArg Nat.succ size,fun a out => ?_⟩
        rw [List.cons_append,List.cons_append,← placed a out]
        exact if_pos flows
      · let start := cursor + (b.margins.start axis + gap)
        let extent := shares.final axis bonus b
        obtain ⟨ones',others',size,placed⟩ := ih (start + (extent + b.margins.finish axis)) shares.gap
        refine ⟨(b.withStart axis start).withExtent axis extent :: ones',others',congrArg Nat.succ size,fun a out => ?_⟩
        rw [List.cons_append,List.cons_append,← placed a out]
        exact if_neg flows

theorem place_around (run : Run) (span : Span) (alignment : Alignment) (last : Bool) (ones others : List Box) :
    ∃ ones' others' : List Box, ones'.length = ones.length ∧ ∀ a : Box, a.flags.inFlow = false →
      (run.withMembers (ones ++ a :: others)).place axis span alignment wrap last = ones' ++ a :: others' := by
  let shares := run.shares span.space alignment wrap last
  obtain ⟨ones',others',size,placed⟩ := placeFrom_around axis shares
    (shares.bonus axis ((ones ++ others).filter (·.flags.inFlow))) span.offset shares.lead ones others
  refine ⟨ones',others',size,fun a out => ?_⟩
  have flowing : (ones ++ a :: others).filter (·.flags.inFlow) = (ones ++ others).filter (·.flags.inFlow) := by
    rw [List.filter_append,List.filter_cons_of_neg (by simp [out]),List.filter_append]
  rw [← placed a out,← flowing]
  rfl

theorem placeAll_cons (span : Span) (alignment : Alignment) (run : Run) {rest : List Run}
    (more : rest ≠ []) : placeAll axis span alignment wrap (run :: rest) =
      run.place axis span alignment wrap false ++ placeAll axis span alignment wrap rest := by
  cases rest with
  | nil => exact absurd rfl more
  | cons next rest => rfl

theorem placeAll_around (span : Span) (alignment : Alignment) (front : List Run) (run : Run) (ones others : List Box)
    (back : List Run) : ∃ before' after' : List Box, before'.length = (front.flatMap members ++ ones).length ∧
      ∀ a : Box, a.flags.inFlow = false →
        placeAll axis span alignment wrap (front ++ run.withMembers (ones ++ a :: others) :: back) =
          before' ++ a :: after' := by
  induction front with
  | nil =>
      cases back with
      | nil => exact place_around axis wrap run span alignment true ones others
      | cons next rest =>
          obtain ⟨ones',others',size,placed⟩ := place_around axis wrap run span alignment false ones others
          refine ⟨ones',others' ++ placeAll axis span alignment wrap (next :: rest),size,fun a out => ?_⟩
          rw [List.nil_append,placeAll_cons axis wrap span alignment _ (List.cons_ne_nil _ _),placed a out,List.append_assoc,
            List.cons_append]
  | cons first front ih =>
      obtain ⟨before',after',size,placed⟩ := ih
      refine ⟨first.place axis span alignment wrap false ++ before',after',?_,fun a out => ?_⟩
      · rw [List.length_append,size,List.flatMap_cons,List.append_assoc,@List.length_append _ first.members,place,
          length_placeFrom]
      · rw [List.cons_append,placeAll_cons axis wrap span alignment first (by simp),placed a out,List.append_assoc]

theorem blind_runs (span : Span) (alignment : Alignment) (out : ∀ a, Out a → a.flags.inFlow = false) :
    Blind Out fun xs => placeAll axis span alignment wrap (build axis space wrap .empty xs) := by
  intro before after
  obtain ⟨front,run,ones,others,back,size,built⟩ := build_around axis space wrap .empty before after
  obtain ⟨before',after',size',placed⟩ := placeAll_around axis wrap span alignment front run ones others back
  refine ⟨before',after',?_,fun a apart => ⟨a,apart,?_⟩⟩
  · rw [size',size]
    exact Nat.zero_add _
  · dsimp only
    rw [built a (out a apart),placed a (out a apart)]

end Run

section Split
variable {α : Type} {starts : α → Bool} {first next : α} {xs run : List α} {runs : List (List α)}

theorem splitBefore_cons_pos (found : splitBefore starts xs = (next :: run) :: runs) (opens : starts next = true) :
    splitBefore starts (first :: xs) = [first] :: (next :: run) :: runs := by
  simp only [splitBefore,found,opens,if_true]

theorem splitBefore_cons_neg (found : splitBefore starts xs = (next :: run) :: runs) (stays : ¬starts next = true) :
    splitBefore starts (first :: xs) = (first :: next :: run) :: runs := by
  simp only [splitBefore,found,stays]
  rfl

-- What opens no run is cut off from nothing, and the others are cut as without it.
theorem splitBefore_around (starts : α → Bool) (before after : List α) :
    ∃ (front : List (List α)) (ones others : List α) (back : List (List α)),
      (front.flatten ++ ones).length = before.length ∧ ∀ a, starts a = false →
        splitBefore starts (before ++ a :: after) = front ++ (ones ++ a :: others) :: back := by
  induction before with
  | nil =>
      cases found : splitBefore starts after with
      | nil => exact ⟨[],[],[],[],rfl,fun a _ => by simp only [List.nil_append,splitBefore,found]⟩
      | cons run back =>
          cases run with
          | nil => exact absurd rfl ((splitBefore_shape starts after).2 [] (by simp [found]))
          | cons next rest =>
              by_cases opens : starts next = true
              · exact ⟨[],[],[],(next :: rest) :: back,rfl,fun a _ => splitBefore_cons_pos found opens⟩
              · exact ⟨[],[],next :: rest,back,rfl,fun a _ => splitBefore_cons_neg found opens⟩
  | cons first rest ih =>
      obtain ⟨front,ones,others,back,size,cut⟩ := ih
      cases front with
      | nil =>
          cases ones with
          | nil =>
              refine ⟨[],[first],others,back,congrArg Nat.succ size,fun a stays => ?_⟩
              exact splitBefore_cons_neg (cut a stays) (by simp [stays])
          | cons next ones =>
              by_cases opens : starts next = true
              · exact ⟨[[first]],next :: ones,others,back,congrArg Nat.succ size,fun a stays =>
                  splitBefore_cons_pos (cut a stays) opens⟩
              · exact ⟨[],first :: next :: ones,others,back,congrArg Nat.succ size,fun a stays =>
                  splitBefore_cons_neg (cut a stays) opens⟩
      | cons run front =>
          cases run with
          | nil =>
              refine ⟨[first] :: front,ones,others,back,congrArg Nat.succ size,fun a stays => ?_⟩
              exact absurd rfl ((splitBefore_shape starts _).2 [] (by rw [cut a stays]; exact List.mem_cons_self))
          | cons next run =>
              by_cases opens : starts next = true
              · exact ⟨[first] :: (next :: run) :: front,ones,others,back,congrArg Nat.succ size,fun a stays =>
                  splitBefore_cons_pos (cut a stays) opens⟩
              · exact ⟨(first :: next :: run) :: front,ones,others,back,congrArg Nat.succ size,fun a stays =>
                  splitBefore_cons_neg (cut a stays) opens⟩

end Split

namespace Box
variable {a b c d : Box} {axis : Axis} {Out : Box → Prop}

theorem squeezeRuns_around (axis : Axis) (constrained : Bool) (offset : Single) (front : List (List Box)) (ones others : List Box)
    (back : List (List Box)) : ∃ before' after' : List Box, before'.length = (front.flatten ++ ones).length ∧
      ∀ a : Box, a.flags.floating = true →
        squeezeRuns axis constrained offset (front ++ (ones ++ a :: others) :: back) = before' ++ a :: after' := by
  induction front generalizing offset with
  | nil =>
      let room := runNeed axis (ones ++ others)
      let squeezed := squeezeChildren axis ⟨offset,room⟩ constrained
      refine ⟨squeezed ones,squeezed others ++ squeezeRuns axis constrained (offset + room) back,
        List.length_map _,fun a floats => ?_⟩
      have need : runNeed axis (ones ++ a :: others) = room := by
        simp only [runNeed,room,List.filter_append,List.filter_cons_of_neg (p := fun b : Box => !b.flags.floating)
          (a := a) (by simp [floats])]
      rw [List.nil_append,squeezeRuns,need]
      simp only [squeezed,squeezeChildren,List.map_append,List.map_cons,floats,if_true,List.append_assoc,List.cons_append]
  | cons first front ih =>
      obtain ⟨before',after',size,placed⟩ := ih (offset + runNeed axis first)
      refine ⟨squeezeChildren axis ⟨offset,runNeed axis first⟩ constrained first ++ before',after',?_,fun a floats => ?_⟩
      · rw [List.length_append,size,List.flatten_cons,List.append_assoc,@List.length_append _ first]
        exact congrArg (· + _) (List.length_map _)
      · rw [List.cons_append,squeezeRuns,placed a floats,List.append_assoc]

theorem blind_squeezeRuns (axis : Axis) (constrained : Bool) (offset : Single) (out : ∀ a, Out a → a.flags.floating = true) :
    Blind Out fun xs => squeezeRuns axis constrained offset (splitBefore opensRun xs) := by
  intro before after
  obtain ⟨front,ones,others,back,size,cut⟩ := splitBefore_around opensRun before after
  obtain ⟨before',after',size',placed⟩ := squeezeRuns_around axis constrained offset front ones others back
  refine ⟨before',after',size'.trans size,fun a apart => ⟨a,apart,?_⟩⟩
  have closed : opensRun a = false := by simp [opensRun,LayoutFlags.inFlow,out a apart]
  dsimp only
  rw [cut a closed,placed a (out a apart)]

-- Floating, or standing over the runs of a container that does not wrap, or in one
-- where every child is placed on its own.
def OutOfFlow (c b : Box) : Prop :=
  b.flags.floating = true ∨ (b.flags.stacked = true ∧ c.arrangement.wraps = false) ∨ c.arrangement = .free

theorem OutOfFlow.of_inputs (out : OutOfFlow c a) (container : c.container = d.container) (same : SameInputs a b) :
    OutOfFlow d b := by
  have matching := same.matching .x
  unfold OutOfFlow arrangement at out ⊢
  rwa [← matching.floating,← matching.stacked,← container]

theorem blind_stackChildren (axis : Axis) (span : Span) (alignment : Alignment) (wrap constrained : Bool)
    (out : ∀ a, Out a → a.flags.inFlow = false) (marked : ∀ a value, Out a → Out (a.withBreak value))
    (squeezed : ∀ a, Out a → Out (a.squeezedIn axis span constrained)) :
    Blind Out (stackChildren axis span alignment wrap constrained) := by
  have runs := Run.blind_runs axis span.space wrap span alignment out
  have squeezing : Blind Out (List.map fun b : Box =>
      if b.flags.stacked && !b.flags.floating then b.squeezedIn axis span constrained else b) := by
    refine .map fun a apart => ?_
    split
    · exact squeezed a apart
    · exact apart
  cases wrap with
  | false => exact squeezing.comp runs
  | true => exact (squeezing.comp runs).comp (.map fun a apart => marked a false apart)

theorem OutOfFlow.of_flags (out : OutOfFlow c a) (same : b.bothFlags = a.bothFlags) : OutOfFlow c b := by
  unfold OutOfFlow at out ⊢
  rwa [show b.flags = a.flags from (Prod.mk.inj same).2]

theorem blind_placeChildren (c : Box) (axis : Axis) : Blind (OutOfFlow c) (c.placeChildren axis) := by
  unfold placeChildren
  dsimp only
  split
  · rename_i primary
    refine blind_stackChildren axis _ _ _ _ ?_ (fun a value out => out) fun a out => out.of_flags (flags_squeezedIn ..)
    rintro a (floats | ⟨stacked,_⟩ | free)
    · simp [LayoutFlags.inFlow,floats]
    · simp [LayoutFlags.inFlow,stacked]
    · rw [free] at primary
      cases primary
  · split
    · rename_i wraps
      refine blind_squeezeRuns axis _ _ ?_
      rintro a (floats | ⟨_,whole⟩ | free)
      · exact floats
      · rw [whole] at wraps
        cases wraps
      · rw [free] at wraps
        cases wraps
    · split
      · refine .map fun a out => ?_
        split
        · exact out
        · exact out.of_flags (flags_overlaidIn _)
      · refine .map fun a out => ?_
        split
        · exact out
        · exact out.of_flags (flags_squeezedIn ..)

theorem blind_settled (c : Box) (axis : Axis) : Blind (OutOfFlow c) (c.settled axis) := by
  have floated : Blind (OutOfFlow c) (List.map fun child : Box =>
      if child.flags.floating then child.floatedIn axis (c.contentSpan axis) else child) := by
    refine .map fun a out => ?_
    split
    · exact out.of_flags (flags_floatedIn _)
    · exact out
  exact floated.comp (blind_placeChildren c axis)

end Box

namespace Tree
variable {t u : Tree Box} {K : Context Box} {axis : Axis} {keep kept : Bool} {clip : Option Span} {b : Box}

structure Context.Fits (K : Context Box) (t : Tree Box) : Prop where
  fixed : ∀ axis, 0 < K.holder.fixedSize.get axis
  out : Box.OutOfFlow K.holder t.value

theorem Context.Fits.of_kept {L : Context Box} (fits : K.Fits t) (holder : Box.SameInputs K.holder L.holder)
    (value : Box.SameInputs t.value u.value) : L.Fits u :=
  ⟨fun axis => holder.fixedSize ▸ fits.fixed axis,fits.out.of_inputs holder.container value⟩

theorem Context.fits_step {inner : Context Box} {before after : List (Tree Box)} :
    (Context.step b before inner after).Fits t ↔ inner.Fits t :=
  ⟨fun fits => ⟨fits.fixed,fits.out⟩,fun fits => ⟨fits.fixed,fits.out⟩⟩

def Blind (op : Tree Box → Tree Box) : Prop :=
  ∀ K : Context Box, ∃ L : Context Box, L.path = K.path ∧ ∀ t, K.Fits t → ∃ u, L.Fits u ∧ op (K.fill t) = L.fill u

theorem Blind.comp {first second : Tree Box → Tree Box} (two : Blind second) (one : Blind first) :
    Blind fun t => second (first t) := by
  intro K
  obtain ⟨L,same,done⟩ := one K
  obtain ⟨M,same',done'⟩ := two L
  refine ⟨M,same'.trans same,fun t fits => ?_⟩
  obtain ⟨u,fits,filled⟩ := done t fits
  obtain ⟨v,fits,filled'⟩ := done' u fits
  exact ⟨v,fits,(congrArg second filled).trans filled'⟩

theorem blind_sized (axis : Axis) (keep kept : Bool) : Blind (sized axis keep kept) := by
  intro K
  induction K generalizing kept with
  | last c before after =>
      let change := sized axis keep (keep && decide (c.arrangement = .columnWrap))
      let c' := (c.releaseBreak axis kept).sized axis []
      have writing := Box.SameKept.writing axis
      have same : Box.SameKept c c' := writing.sizedBox (writing.releaseBreak (.refl c) kept)
      refine ⟨.last c' (before.map change) (after.map change),?_,fun t fits => ⟨change t,?_,?_⟩⟩
      · exact congrArg (fun size => [size]) (List.length_map _)
      · exact fits.of_kept same.inputs (sized_kept t axis keep _).value.inputs
      · have fixed : 0 < (c.releaseBreak axis kept).fixedSize.get axis :=
          (writing.releaseBreak (.refl c) kept).inputs.fixedSize ▸ fits.fixed axis
        have box : ∀ children, (c.releaseBreak axis kept).sized axis children = c' := fun children => by
          rw [Box.sized_fixed fixed,← Box.sized_fixed fixed []]
        rw [Context.fill,sized_node]
        dsimp only
        rw [box,List.map_append,List.map_cons,Context.fill]
  | step value before inner after ih =>
      let below := keep && decide (value.arrangement = .columnWrap)
      obtain ⟨inner',same,done⟩ := ih below
      let change := sized axis keep below
      refine ⟨.step ((value.releaseBreak axis kept).sized axis ((before.map change).map Tree.value ++ inner'.value :: (after.map change).map Tree.value))
        (before.map change) inner' (after.map change),?_,fun t fits => ?_⟩
      · exact congrArg₂ List.cons (List.length_map _) same
      · obtain ⟨u,fits,filled⟩ := done t (Context.fits_step.mp fits)
        refine ⟨u,Context.fits_step.mpr fits,?_⟩
        rw [Context.fill,sized_node]
        dsimp only
        rw [List.map_append,List.map_cons,filled,List.map_append,List.map_cons,Context.value_fill,Context.fill]

theorem arrangeAll_append {front back : List Box} {ts us : List (Tree Box)} (size : front.length = ts.length) :
    arrangeAll axis clip (front ++ back) (ts ++ us) = arrangeAll axis clip front ts ++ arrangeAll axis clip back us := by
  induction ts generalizing front with
  | nil =>
      rw [List.length_eq_zero_iff.mp size]
      rfl
  | cons tree rest ih =>
      cases front with
      | nil => cases size
      | cons first front => rw [List.cons_append,List.cons_append,arrangeAll,arrangeAll,List.cons_append,ih (Nat.succ.inj size)]

theorem length_arrangeAll {boxes : List Box} {trees : List (Tree Box)} (size : boxes.length = trees.length) :
    (arrangeAll axis clip boxes trees).length = trees.length := by
  induction trees generalizing boxes with
  | nil => cases boxes <;> rfl
  | cons tree rest ih =>
      cases boxes with
      | nil => cases size
      | cons first boxes => exact congrArg Nat.succ (ih (Nat.succ.inj size))

theorem blind_arrange (axis : Axis) (clip : Option Span) {b : Box} (same : Box.SameInputs K.value b) :
    ∃ L : Context Box, L.path = K.path ∧ ∀ t, K.Fits t → ∃ u, L.Fits u ∧ (K.fill t).arrange axis clip b = L.fill u := by
  have writing := Box.SameKept.writing axis
  induction K generalizing clip b with
  | last c before after =>
      let b' := b.clippedTo axis clip
      let clip' := if b'.container.constrainSize then some (b'.contentSpan axis) else none
      have same' : Box.SameInputs c b' := same.trans (writing.clippedTo (.refl b) clip).inputs
      obtain ⟨front,back,size,placed⟩ := Box.blind_settled b' axis (before.map Tree.value) (after.map Tree.value)
      rw [List.length_map] at size
      refine ⟨.last b' (arrangeAll axis clip' front before) (arrangeAll axis clip' back after),?_,fun t fits => ?_⟩
      · exact congrArg (fun size => [size]) (length_arrangeAll size)
      · obtain ⟨a,out,settled⟩ := placed t.value (fits.out.of_inputs same'.container (.refl _))
        refine ⟨t.arrange axis clip' a,⟨fun axis => same'.fixedSize ▸ fits.fixed axis,?_⟩,?_⟩
        · rw [value_arrange]
          exact out.of_flags (Box.flags_clippedTo clip')
        · rw [Context.fill,arrange_node]
          dsimp only
          rw [List.map_append,List.map_cons,settled,arrangeAll_append size,arrangeAll,Context.fill]
  | step value before inner after ih =>
      let b' := b.clippedTo axis clip
      let clip' := if b'.container.constrainSize then some (b'.contentSpan axis) else none
      let boxes := before.map Tree.value ++ inner.value :: after.map Tree.value
      have kept : List.Forall₂ Box.SameKept boxes (b'.settled axis boxes) :=
        (writing.placing _).settled rfl (List.forall₂_same.mpr fun child _ => .refl child)
      obtain ⟨front,first,back,settled,size,one⟩ := forall₂_around kept
      rw [List.length_map] at size
      obtain ⟨inner',path,done⟩ := ih clip' one.inputs
      refine ⟨.step b' (arrangeAll axis clip' front before) inner' (arrangeAll axis clip' back after),?_,fun t fits => ?_⟩
      · exact congrArg₂ List.cons (length_arrangeAll size) path
      · obtain ⟨u,fits,filled⟩ := done t (Context.fits_step.mp fits)
        refine ⟨u,Context.fits_step.mpr fits,?_⟩
        rw [Context.fill,arrange_node]
        dsimp only
        rw [List.map_append,List.map_cons,Context.value_fill,settled,arrangeAll_append size,arrangeAll,filled,Context.fill]

theorem blind_passAxis (keep : Bool) (axis : Axis) : Blind (passAxis keep none axis) := by
  intro K
  obtain ⟨L,path,sized⟩ := blind_sized axis keep false K
  obtain ⟨M,path',arranged⟩ := blind_arrange axis none (Box.SameInputs.refl L.value)
  refine ⟨M,path'.trans path,fun t fits => ?_⟩
  obtain ⟨u,fits,filled⟩ := sized t fits
  obtain ⟨v,fits,filled'⟩ := arranged u fits
  refine ⟨v,fits,?_⟩
  rw [← filled',← Context.value_fill L u,← filled]
  rfl

theorem blind_pass (keep : Bool) : Blind (pass keep none) := (blind_passAxis keep .y).comp (blind_passAxis keep .x)

-- Always two passes, so it does not matter whether a column broke in the open place.
theorem blind_layOut : Blind (layOut none) := by
  have passes := (blind_pass true).comp (blind_pass false)
  intro K
  obtain ⟨L,path,done⟩ := passes K
  exact ⟨L,path,fun t fits => layOut_two_passes (K.fill t) none ▸ done t fits⟩

end Tree
end BoxLayout
