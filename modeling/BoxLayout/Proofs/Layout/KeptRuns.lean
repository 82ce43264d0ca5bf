import BoxLayout.Proofs.Layout.Passes

namespace BoxLayout.Tree

-- Passes that keep the runs of wrapping columns. They read more than a first pass
-- does: the break markers below those columns.

variable {t u : Tree Box} {keep kept : Bool} {around : Option Surround}

inductive RunsAlike : Tree Box → Tree Box → Prop where
  | node {a b : Box} {ts us : List (Tree Box)} :
      Box.SameInputs a b →
      List.Forall₂ (fun t u => a.arrangement = .columnWrap → t.value.flags.isBreak = u.value.flags.isBreak) ts us →
      List.Forall₂ RunsAlike ts us → RunsAlike (.node a ts) (.node b us)

theorem RunsAlike.value (alike : RunsAlike t u) : Box.SameInputs t.value u.value := by
  cases alike with
  | node inputs _ _ => exact inputs

theorem sizing_kept (kept : Bool) :
    Sizing .x .x kept (fun a b => Box.SameInputs a b ∧ (kept = true → a.flags.isBreak = b.flags.isBreak))
      (Box.Agree fun other => False ∨ other = .x) := by
  refine Box.agree_sizing And.left ?_
  rintro a b (_ | _) ⟨inputs,marked⟩ allowed
  · exact inputs.release
  · exact ⟨inputs,marked (allowed rfl),nofun,nofun,nofun⟩

theorem agree_sized_kept (alike : RunsAlike t u)
    (marked : kept = true → t.value.flags.isBreak = u.value.flags.isBreak) :
    Related (Box.Agree fun other => False ∨ other = .x) (t.sized .x true kept) (u.sized .x true kept) := by
  induction t generalizing u kept with
  | node value children ih =>
      cases alike with
      | @node _ value' _ children' inputs marks below =>
          have columns : decide (value'.arrangement = .columnWrap) = decide (value.arrangement = .columnWrap) :=
            decide_eq_decide.mpr (inputs.matching .x).columnWrap.symm
          rw [sized_node,sized_node,columns,Bool.true_and]
          have sized : List.Forall₂ (Related (Box.Agree fun other => False ∨ other = .x))
              (children.map (sized .x true (decide (value.arrangement = .columnWrap))))
              (children'.map (sized .x true (decide (value.arrangement = .columnWrap)))) := by
            rw [List.forall₂_map_left_iff,List.forall₂_map_right_iff]
            have each := List.Forall₂.mp (fun _ _ one two => And.intro one two) marks below
            refine ((List.forall₂_and_left _ _).mpr ⟨ih,each⟩).imp ?_
            rintro tree tree' ⟨ih,mark,alike⟩
            exact ih alike fun wraps => mark (of_decide_eq_true wraps)
          exact .node ((sizing_kept kept).sizedBox (Box.Agree.transfer (.inr rfl)) ⟨inputs,marked⟩
            (Related.values sized) id) sized

theorem agree_pass_kept (alike : RunsAlike t u) (standing : Standing around t u) :
    Related (Box.Agree fun _ => True) (t.pass true around) (u.pass true around) := by
  have across := agree_arranged (.inr rfl) (agree_sized_kept alike nofun) standing
  have down := agree_passAxis (sizing_again .y true) (.inr rfl) across (standing.passAxis alike.value true .x)
  refine down.imp fun _ _ agree => agree.imp ?_
  intro axis _
  cases axis with
  | x => exact .inl (.inr rfl)
  | y => exact .inr rfl

theorem withBreak_of_clear {b : Box} (clear : b.flags.isBreak = false) : b.withBreak false = b := by
  rcases b with ⟨_,⟨⟩⟩
  cases clear
  rfl

theorem columnBroke_node {b : Box} {children : List (Tree Box)} : (node b children).columnBroke = true ↔
    (b.arrangement = .columnWrap ∧ ∃ tree ∈ children, tree.value.flags.isBreak = true) ∨
      ∃ tree ∈ children, tree.columnBroke = true := by
  have deeper : columnBrokeAny children = children.any columnBroke := by
    induction children with
    | nil => rfl
    | cons tree rest ih => rw [columnBrokeAny,ih,List.any_cons]
  simp only [columnBroke,deeper,Bool.or_eq_true,Bool.and_eq_true,decide_eq_true_eq,List.any_eq_true]

theorem sized_unbroken (whole : ¬t.columnBroke = true) (clear : kept = true → t.value.flags.isBreak = false) :
    t.sized .x true kept = t.sized .x false false := by
  induction t generalizing kept with
  | node value children ih =>
      rw [columnBroke_node,not_or] at whole
      have released : value.releaseBreak .x kept = value.releaseBreak .x false := by
        cases kept with
        | false => rfl
        | true => exact (withBreak_of_clear (clear rfl)).symm
      have same : children.map (sized .x true (decide (value.arrangement = .columnWrap))) =
          children.map (sized .x false false) := by
        refine List.map_congr_left fun tree member => ih tree member ?_ ?_
        · exact fun broke => whole.2 ⟨tree,member,broke⟩
        · intro wraps
          by_contra marked
          exact whole.1 ⟨of_decide_eq_true wraps,tree,member,by simpa using marked⟩
      rw [sized_node,sized_node,Bool.true_and,Bool.false_and,same,released]

theorem sized_second (t : Tree Box) (kept kept' : Bool) : t.sized .y true kept = t.sized .y false kept' := by
  induction t generalizing kept kept' with
  | node value children ih =>
      rw [sized_node,sized_node,List.map_congr_left fun tree member => ih tree member _ (false && _)]
      rfl

theorem pass_unbroken (whole : ¬t.columnBroke = true) : t.pass true around = t.pass false around := by
  have first : t.sized .x true false = t.sized .x false false := sized_unbroken whole nofun
  have across : t.passAxis true around .x = t.passAxis false around .x := by
    unfold passAxis
    rw [first]
  change (t.passAxis true around .x).passAxis true around .y = (t.passAxis false around .x).passAxis false around .y
  rw [across]
  unfold passAxis
  rw [sized_second]

theorem standing_pass (t : Tree Box) (keep : Bool) : Standing around t (t.pass keep around) := fun held other =>
  (start_pass t keep held other).symm

theorem pass_first (t : Tree Box) : (t.pass false around).pass false around = t.pass false around := by
  have inputs : Related Box.SameInputs t (t.pass false around) :=
    (pass_keeps t false around).imp fun _ _ => Box.SameKept.inputs
  exact (eq_of_agree (agree_pass_first inputs (standing_pass t false)) (pass_keeps _ false around)).symm

-- One more pass with the runs kept changes nothing where no column broke.
theorem layOut_two_passes (t : Tree Box) (around : Option Surround) :
    t.layOut around = (t.pass false around).pass true around := by
  by_cases broke : (t.pass false around).columnBroke
  · exact if_pos broke
  · rw [pass_unbroken broke,pass_first]
    exact if_neg broke

-- Laid out, a tree is what one more pass with its runs kept makes of it, provided
-- the last pass left the runs it was given.
theorem pass_layOut (alike : RunsAlike (t.pass false around) (t.layOut around)) :
    (t.layOut around).pass true around = t.layOut around := by
  rw [layOut_two_passes] at alike ⊢
  exact (eq_of_agree (agree_pass_kept alike (standing_pass _ true)) (pass_keeps _ true around)).symm

end BoxLayout.Tree
