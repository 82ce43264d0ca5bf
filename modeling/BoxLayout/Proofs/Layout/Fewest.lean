import BoxLayout.Proofs.Layout.Runs

namespace BoxLayout

-- No other way to cut the children of a wrapping container into runs that fit has fewer
-- of them than the one found.

namespace Box

structure Lengthens (axis : Axis) (b : Box) : Prop where
  start : 0 ≤ b.margins.start axis
  finish : 0 ≤ b.margins.finish axis
  extent : 0 ≤ b.extent axis

theorem Lengthens.onRun {axis : Axis} {b : Box} (lengthens : b.Lengthens axis) :
    0 ≤ b.margins.total axis ∧ 0 ≤ b.lengthOnRun axis := by
  refine ⟨nonneg_total _ _ lengthens.start lengthens.finish,?_⟩
  unfold lengthOnRun
  split
  · exact Single.nonneg_zero
  · exact lengthens.extent

end Box

section Length
variable {axis : Axis} {flow : List Box} {low high : Single}

theorem runLength_grows (lengthens : ∀ b ∈ flow, b.Lengthens axis) (positive : 0 ≤ low) (le : low ≤ high) :
    low ≤ flow.foldl (addOnRun axis) low ∧ flow.foldl (addOnRun axis) low ≤ flow.foldl (addOnRun axis) high := by
  induction flow generalizing low high with
  | nil => exact ⟨Single.le_refl (Single.ne_nan_of_le positive).2,le⟩
  | cons b rest ih =>
      obtain ⟨margins,extent⟩ := (lengthens b List.mem_cons_self).onRun
      have sum : ∀ {x y z : Single}, 0 ≤ x → x ≤ y → 0 ≤ z → 0 ≤ x + z ∧ x + z ≤ y + z := by
        intro x y z nonneg less more
        have below := Single.nonneg_add nonneg more
        have above := Single.nonneg_add (Single.le_trans nonneg less) more
        exact ⟨below,Single.add_le_add_right less (Single.ne_nan_of_le below).2 (Single.ne_nan_of_le above).2⟩
      obtain ⟨nonneg,ordered⟩ := sum positive le margins
      obtain ⟨nonneg',ordered'⟩ := sum nonneg ordered extent
      obtain ⟨grown,kept⟩ := ih (fun c member => lengthens c (List.mem_cons_of_mem _ member)) nonneg' ordered'
      have added := Single.le_trans (Single.le_add_nonneg positive margins) (Single.le_add_nonneg nonneg extent)
      exact ⟨Single.le_trans added grown,kept⟩

theorem runLength_stretch {before after : List Box} (lengthens : ∀ b ∈ before ++ flow ++ after, b.Lengthens axis) :
    runLength axis flow ≤ runLength axis (before ++ flow ++ after) := by
  have zero : (0 : Single) ≤ 0 := Single.nonneg_zero
  have earlier : 0 ≤ runLength axis before := (runLength_grows (fun b member => lengthens b (by simp [member])) zero zero).1
  obtain ⟨nonneg,shifted⟩ := runLength_grows (fun b (member : b ∈ flow) => lengthens b (by simp [member])) zero earlier
  have number := (Single.ne_nan_of_le shifted).2
  have later := (runLength_grows (fun b (member : b ∈ after) => lengthens b (by simp [member]))
    (Single.le_trans nonneg shifted) (Single.le_refl number)).1
  unfold runLength
  rw [List.foldl_append,List.foldl_append]
  exact Single.le_trans shifted later

end Length

namespace Box
variable {axis : Axis} {space wide : Single} {children : List Box} {parts : List (List Box)}

-- A way to cut the children in flow into runs: no child asks for a run but the first of
-- one, and no run of two or more is too long.
structure Fits (axis : Axis) (space : Single) (children : List Box) (parts : List (List Box)) : Prop where
  whole : parts.flatten = children.filter (·.flags.inFlow)
  nonempty : ∀ part ∈ parts, part ≠ []
  unasked : ∀ part ∈ parts, ∀ b ∈ part.tail, b.flags.forceBreak = false
  short : ∀ part ∈ parts, 2 ≤ part.length → ¬space + Run.tolerance < runLength axis part

theorem Fits.goesOn (fits : Fits axis space children parts) (lengthens : ∀ b ∈ children, b.flags.inFlow = true → b.Lengthens axis) :
    ∀ part ∈ parts, GoesOn (fun run b => b.Overruns axis space run) part := by
  rintro part member before run x after rfl some overruns
  obtain ⟨first,more,rfl⟩ := List.exists_cons_of_ne_nil some
  rcases overruns with asks | long
  · have inside : x ∈ (before ++ first :: more ++ x :: after).tail := by
      cases before <;> simp
    exact absurd asks (Bool.eq_false_iff.mp (fits.unasked _ member x inside))
  · have listed : ∀ b ∈ before ++ (first :: more ++ [x]) ++ after, b.Lengthens axis := by
      intro b found
      have inFlow : b ∈ children.filter (·.flags.inFlow) := by
        rw [← fits.whole]
        exact List.mem_flatten.mpr ⟨_,member,by simpa using found⟩
      obtain ⟨present,flows⟩ := List.mem_filter.mp inFlow
      exact lengthens b present flows
    have stretch := runLength_stretch listed
    have same : before ++ (first :: more ++ [x]) ++ after = before ++ first :: more ++ x :: after := by simp
    rw [same] at stretch
    exact fits.short _ member (by simp; omega) (Single.lt_of_lt_of_le long stretch)

-- The greedy runs are such a way, and stay one where there is more space.
theorem fits_greedyRuns (some : children.filter (·.flags.inFlow) ≠ []) (le : space ≤ wide) :
    Fits axis wide children (greedyRuns (fun run b => b.Overruns axis space run) [] (children.filter (·.flags.inFlow))) := by
  obtain ⟨x,rest,flow⟩ := List.exists_cons_of_ne_nil some
  have alone := unended_singleton (fun run b => b.Overruns axis space run) x
  have found := greedyRuns_unended (List.cons_ne_nil x []) alone rest
  have first : greedyRuns (fun run b => b.Overruns axis space run) [] (x :: rest) =
      greedyRuns (fun run b => b.Overruns axis space run) [x] rest := by
    rw [greedyRuns,if_neg fun ended => ended.1 rfl,List.nil_append]
  rw [flow,first]
  refine ⟨?_,fun part member => (found part member).1,?_,?_⟩
  · rw [flatten_greedyRuns,flow,List.singleton_append]
  · intro part member b inside
    obtain ⟨some,kept⟩ := found part member
    obtain ⟨first,more,rfl⟩ := List.exists_cons_of_ne_nil some
    obtain ⟨before,after,rfl⟩ := List.append_of_mem inside
    exact Bool.eq_false_iff.mpr fun asks => kept (first :: before) b after rfl (List.cons_ne_nil _ _) (.inl asks)
  · intro part member two long
    obtain ⟨some,kept⟩ := found part member
    rcases List.eq_nil_or_concat part with rfl | ⟨init,last,rfl⟩
    · exact some rfl
    · rw [List.concat_eq_append] at *
      have begun : init ≠ [] := by
        rintro rfl
        exact absurd two (by simp)
      refine kept init last [] rfl begun (.inr (Single.lt_of_le_of_lt ?_ long))
      obtain ⟨number,number'⟩ := Single.ne_nan_of_le le
      exact Single.add_le_add_right le (Single.add_tenth_ne_nan number) (Single.add_tenth_ne_nan number')

def runsFound (b : Box) (axis : Axis) (children : List Box) : List (List Box) :=
  splitBefore (·.flags.isBreak) ((b.placeChildren axis children).filter (·.flags.inFlow))

variable {b : Box}

theorem length_runsFound (stacked : b.arrangement.primaryAxis? = some axis) (wraps : b.arrangement.wraps = true)
    (some : children.filter (·.flags.inFlow) ≠ []) : (b.runsFound axis children).length =
      (openings (fun run c => c.Overruns axis (b.contentSpan axis).space run) [] (children.filter (·.flags.inFlow))).count true + 1 := by
  have marks := marks_placeChildren stacked wraps children
  obtain ⟨x,rest,flow⟩ := List.exists_cons_of_ne_nil some
  rw [flow,openings,if_neg fun ended => ended.1 rfl] at marks ⊢
  unfold runsFound
  cases found : (b.placeChildren axis children).filter (·.flags.inFlow) with
  | nil =>
      rw [found] at marks
      cases marks
  | cons first more =>
      rw [found] at marks
      rw [length_splitBefore,← (List.cons.inj marks).2,List.count_cons_of_ne Bool.false_ne_true,List.count_eq_countP,
        List.countP_map]
      congr 2
      funext c
      simp

theorem runsFound_none (stacked : b.arrangement.primaryAxis? = some axis) (wraps : b.arrangement.wraps = true)
    (none : children.filter (·.flags.inFlow) = []) : b.runsFound axis children = [] := by
  have marks := marks_placeChildren stacked wraps children
  rw [none,openings,List.map_eq_nil_iff] at marks
  rw [runsFound,marks,splitBefore]

-- However the children in flow are cut into runs that fit, the container found no more;
-- so with more space it finds no more than with less.
theorem fewest_runs (stacked : b.arrangement.primaryAxis? = some axis) (wraps : b.arrangement.wraps = true)
    (lengthens : ∀ c ∈ children, c.flags.inFlow = true → c.Lengthens axis) :
    (∀ parts, Fits axis (b.contentSpan axis).space children parts → (b.runsFound axis children).length ≤ parts.length) ∧
      ∀ larger : Box, larger.arrangement.primaryAxis? = some axis → larger.arrangement.wraps = true →
        (b.contentSpan axis).space ≤ (larger.contentSpan axis).space →
          (larger.runsFound axis children).length ≤ (b.runsFound axis children).length := by
  have fewest : ∀ c : Box, c.arrangement.primaryAxis? = some axis → c.arrangement.wraps = true → ∀ parts,
      Fits axis (c.contentSpan axis).space children parts → (c.runsFound axis children).length ≤ parts.length := by
    intro c stacked wraps parts fits
    by_cases none : children.filter (·.flags.inFlow) = []
    · rw [runsFound_none stacked wraps none]
      exact Nat.zero_le _
    · rw [length_runsFound stacked wraps none,← fits.whole]
      exact openings_fewest fits.nonempty (fits.goesOn lengthens) (fits.whole ▸ none)
  refine ⟨fewest b stacked wraps,fun larger stacked' wraps' le => ?_⟩
  by_cases none : children.filter (·.flags.inFlow) = []
  · rw [runsFound_none stacked' wraps' none]
    exact Nat.zero_le _
  · have wider := fewest larger stacked' wraps' _ (fits_greedyRuns none le)
    rwa [length_greedyRuns,← length_runsFound stacked wraps none] at wider

def card : Box := { Box.new with rect := .ofNumbers 0 0 40 10 }

def shelf (width : Single) : Box := { Box.new with container := .ofWord 5, rect := .ofNumbers 0 0 width 10 }

theorem fewest_runs_shelf : ((shelf 100).runsFound .x [card,card,card]).length = 2 ∧
    ((shelf 100).runsFound .x [card,card,card]).length ≤ [[card],[card,card]].length ∧
      ((shelf 200).runsFound .x [card,card,card]).length ≤ ((shelf 100).runsFound .x [card,card,card]).length := by
  have lengthens : card.Lengthens .x := ⟨by decide,by decide,by decide +kernel⟩
  have all : ∀ c ∈ [card,card,card], c.flags.inFlow = true → c.Lengthens .x := by
    intro c member _
    have same : c = card := by simpa using member
    exact same ▸ lengthens
  have fits : Fits .x ((shelf 100).contentSpan .x).space [card,card,card] [[card],[card,card]] :=
    ⟨by decide +kernel,by decide +kernel,by decide +kernel,by decide +kernel⟩
  obtain ⟨fewest,wider⟩ := fewest_runs (b := shelf 100) (by decide +kernel) (by decide +kernel) all
  exact ⟨by decide +kernel,fewest _ fits,wider (shelf 200) (by decide +kernel) (by decide +kernel) (by decide +kernel)⟩

end Box
end BoxLayout
