import BoxLayout.Proofs.Layout.Determined

namespace BoxLayout

-- Axis after axis and pass after pass: two trees that agree in their inputs agree in
-- everything once they are laid out.

def Box.Held (around : Option Surround) (b : Box) : Prop := around ≠ none ∧ b.flags.floating = false

namespace Tree
variable {t u : Tree Box} {axis other : Axis} {known : Axis → Prop} {keep : Bool} {around : Option Surround}

def Standing (around : Option Surround) (t u : Tree Box) : Prop :=
  t.value.Held around → ∀ axis, t.value.start axis = u.value.start axis

theorem value_arrange (t : Tree Box) (clip : Option Span) (b : Box) : (t.arrange axis clip b).value = b.clippedTo axis clip := by
  cases t
  rfl

theorem sized_kept (t : Tree Box) (axis : Axis) (keep kept : Bool) : Related Box.SameKept t (t.sized axis keep kept) :=
  (Box.SameKept.writing axis).sized keep kept (.refl Box.SameKept.refl t)

theorem passAxis_kept (t : Tree Box) (keep : Bool) (around : Option Surround) (axis : Axis) :
    Related Box.SameKept t (t.passAxis keep around axis) :=
  (Box.SameKept.writing axis).passAxis keep around (.refl Box.SameKept.refl t)

theorem pass_keeps (t : Tree Box) (keep : Bool) (around : Option Surround) : Related Box.SameKept t (t.pass keep around) :=
  pass_kept Box.SameKept.writing keep around (.refl Box.SameKept.refl t)

theorem layOut_keeps (t : Tree Box) (around : Option Surround) : Related Box.SameKept t (t.layOut around) :=
  layOut_kept Box.SameKept.writing around (.refl Box.SameKept.refl t)

theorem held_iff {a b : Box} (same : Box.SameInputs a b) : a.Held around ↔ b.Held around := by
  simp only [Box.Held,same.floating]

theorem start_clippedTo (b : Box) (clip : Option Span) : (b.clippedTo axis clip).start other = b.start other := by
  unfold Box.clippedTo
  cases clip with
  | none => rfl
  | some span =>
      dsimp only
      split
      · rfl
      · rfl

theorem start_passAxis (t : Tree Box) (keep : Bool) (held : t.value.Held around) (axis other : Axis) :
    (t.passAxis keep around axis).value.start other = t.value.start other := by
  by_cases same : other = axis
  · subst other
    have still := (sized_kept t axis keep false).value.inputs.floating
    obtain ⟨shown,standing⟩ := held
    unfold passAxis
    rw [value_arrange,start_clippedTo]
    cases around with
    | none => exact absurd rfl shown
    | some parent => simp [rooted,← still,standing]
  · have writing : Writing axis fun a b => b.start other = a.start other := by
      refine ⟨?_,?_,?_,?_⟩
      · intro a b still value
        rw [Box.start_withStart,if_neg same,still]
      · intro a b still value
        exact still
      · intro a b still value
        exact still
      · intro a b still _ value
        exact still
    have self : Related (fun a b : Box => b.start other = a.start other) t t := by
      apply Related.refl
      intro a
      rfl
    exact (writing.passAxis keep around self).value

theorem Standing.passAxis (standing : Standing around t u) (same : Box.SameInputs t.value u.value) (keep : Bool)
    (axis : Axis) : Standing around (t.passAxis keep around axis) (u.passAxis keep around axis) := by
  intro held other
  have before := (held_iff (passAxis_kept t keep around axis).value.inputs).mpr held
  rw [start_passAxis t keep before,start_passAxis u keep ((held_iff same).mp before)]
  exact standing before other

theorem agree_rooted {a b : Box} {before before' : Single} (agree : Box.Agree known a b) (here : known axis)
    (standing : a.Held around → before = before') :
    Box.Agree known (rooted around axis before a) (rooted around axis before' b) := by
  cases around with
  | none => exact agree
  | some parent =>
      simp only [rooted,← agree.inputs.floating]
      split
      · exact (Box.Agree.transfer here).floatedIn agree _
      · rename_i standsStill
        rw [standing ⟨nofun,by simpa using standsStill⟩]
        exact agree.withStart _

theorem agree_arranged (here : known axis)
    (sized : Related (Box.Agree known) (t.sized axis keep false) (u.sized axis keep false))
    (standing : Standing around t u) :
    Related (Box.Agree known) (t.passAxis keep around axis) (u.passAxis keep around axis) := by
  have rooted := agree_rooted sized.value here fun held =>
    standing ((held_iff (sized_kept t axis keep false).value.inputs).mpr held) axis
  exact (Box.Agree.transfer here).arrange _ rooted sized

theorem agree_passAxis {Q : Box → Box → Prop} (sizing : Sizing axis axis keep Q (Box.Agree known))
    (here : known axis) (related : Related Q t u) (standing : Standing around t u) :
    Related (Box.Agree known) (t.passAxis keep around axis) (u.passAxis keep around axis) :=
  agree_arranged here (sizing.sized (Box.Agree.transfer here) related nofun) standing

theorem sizing_again (axis : Axis) (keep : Bool) :
    Sizing axis axis keep (Box.Agree known) (Box.Agree fun other => known other ∨ other = axis) :=
  Box.agree_sizing Box.Agree.inputs fun agree _ => agree.releaseBreak _

-- A first pass needs the inputs only: each axis is sized before anything on it is read.
theorem agree_pass_first (related : Related Box.SameInputs t u) (standing : Standing around t u) :
    Related (Box.Agree fun _ => True) (t.pass false around) (u.pass false around) := by
  have sizing : Sizing .x .x false Box.SameInputs (Box.Agree fun other => False ∨ other = .x) := by
    refine Box.agree_sizing id ?_
    intro a b kept same allowed
    cases kept with
    | false => exact same.release
    | true => cases allowed rfl
  have across := agree_passAxis sizing (.inr rfl) related standing
  have down := agree_passAxis (sizing_again .y false) (.inr rfl) across (standing.passAxis related.value false .x)
  refine down.imp fun _ _ agree => agree.imp ?_
  rintro (_ | _) _
  · exact .inl (.inr rfl)
  · exact .inr rfl

theorem agree_pass_again (related : Related (Box.Agree fun _ => True) t u) (keep : Bool) :
    Related (Box.Agree fun _ => True) (t.pass keep around) (u.pass keep around) := by
  have step : ∀ {t u} axis, Related (Box.Agree fun _ => True) t u →
      Related (Box.Agree fun _ => True) (t.passAxis keep around axis) (u.passAxis keep around axis) := by
    intro t u axis related
    have standing : Standing around t u := fun _ other => related.value.start other trivial
    have settled := agree_passAxis (sizing_again axis keep) (.inr rfl) related standing
    exact settled.imp fun _ _ agree => agree.imp fun _ _ => .inl trivial
  exact step .y (step .x related)

theorem columnBroke_of_related {R : Box → Box → Prop}
    (marks : ∀ {a b}, R a b → a.arrangement = b.arrangement ∧ a.flags.isBreak = b.flags.isBreak) (related : Related R t u) :
    t.columnBroke = u.columnBroke := by
  induction t generalizing u with
  | node value children ih =>
      cases related with
      | @node _ value' _ children' here below =>
          have marked : (children.any fun tree => tree.value.flags.isBreak) =
              (children'.any fun tree => tree.value.flags.isBreak) := by
            clear ih
            induction below with
            | nil => rfl
            | cons one _ more => simp only [List.any_cons,(marks one.value).2,more]
          have deeper : columnBrokeAny children = columnBrokeAny children' := by
            clear marked
            induction below with
            | nil => rfl
            | cons one _ more =>
                simp only [columnBrokeAny,ih _ List.mem_cons_self one,
                  more fun tree member => ih tree (List.mem_cons_of_mem _ member)]
          simp only [columnBroke,marked,deeper,(marks here).1]

theorem agree_columnBroke (related : Related (Box.Agree known) t u) : t.columnBroke = u.columnBroke :=
  columnBroke_of_related (fun agree => ⟨congrArg ContainerFlags.arrangement agree.inputs.container,agree.isBreak⟩) related

theorem agree_layOut (related : Related Box.SameInputs t u) (standing : Standing around t u) :
    Related (Box.Agree fun _ => True) (t.layOut around) (u.layOut around) := by
  have first := agree_pass_first related standing
  simp only [layOut,agree_columnBroke first]
  split
  · exact agree_pass_again first true
  · exact first

theorem eq_of_agree (agree : Related (Box.Agree fun _ => True) t u) (kept : Related Box.SameKept t u) : t = u :=
  ((agree.both kept).imp fun _ _ both => both.1.eq both.2).eq

theorem layOut_eq (related : Related Box.SameKept t u) (standing : Standing around t u) :
    t.layOut around = u.layOut around := by
  have agree := agree_layOut (related.imp fun _ _ => Box.SameKept.inputs) standing
  have back := (layOut_keeps t around).symm fun _ _ => Box.SameKept.symm
  have kept : Related Box.SameKept (t.layOut around) (u.layOut around) :=
    (back.trans related fun _ _ _ => Box.SameKept.trans).trans (layOut_keeps u around) fun _ _ _ => Box.SameKept.trans
  exact eq_of_agree agree kept

theorem start_pass (t : Tree Box) (keep : Bool) (held : t.value.Held around) (other : Axis) :
    (t.pass keep around).value.start other = t.value.start other := by
  have across := (held_iff (passAxis_kept t keep around .x).value.inputs).mp held
  exact (start_passAxis _ keep across .y other).trans (start_passAxis _ keep held .x other)

theorem start_layOut (t : Tree Box) (held : t.value.Held around) (other : Axis) :
    (t.layOut around).value.start other = t.value.start other := by
  have still := (held_iff (pass_keeps t false around).value.inputs).mp held
  have first := start_pass t false held other
  unfold layOut
  dsimp only
  split
  · exact (start_pass _ true still other).trans first
  · exact first

end Tree
end BoxLayout
