import BoxLayout.Key

namespace BoxLayout

-- Chains of keys: what is met when links are followed from a first key on.

-- Following the links from the start meets the listed keys, in order, and then
-- stands where it stops; a finite chain stops at no key.
def Chain (next : Key → Option Key) : Option Key → List Key → Option Key → Prop
  | start,[],stop => start = stop
  | start,key :: rest,stop => start = some key ∧ Chain next (next key) rest stop

namespace Chain
variable {next other : Key → Option Key} {start stop : Option Key} {first second : List Key} {key : Key}

theorem append_iff : Chain next start (first ++ second) stop ↔
    ∃ middle, Chain next start first middle ∧ Chain next middle second stop := by
  induction first generalizing start with
  | nil => simp [Chain]
  | cons key rest ih => simp [Chain,ih,and_assoc]

theorem congr (chain : Chain next start first stop) (other : Key → Option Key) (same : ∀ key ∈ first, other key = next key) :
    Chain other start first stop := by
  induction first generalizing start with
  | nil => exact chain
  | cons key rest ih =>
      obtain ⟨here,more⟩ := chain
      refine ⟨here,?_⟩
      rw [same key List.mem_cons_self]
      exact ih more fun key member => same key (List.mem_cons_of_mem _ member)

theorem map {renamed : Key → Key} (chain : Chain next start first stop) (other : Key → Option Key)
    (same : ∀ key ∈ first, other (renamed key) = (next key).map renamed) :
    Chain other (start.map renamed) (first.map renamed) (stop.map renamed) := by
  induction first generalizing start with
  | nil => exact congrArg (Option.map renamed) chain
  | cons key rest ih =>
      obtain ⟨here,more⟩ := chain
      refine ⟨congrArg (Option.map renamed) here,?_⟩
      rw [same key List.mem_cons_self]
      exact ih more fun key member => same key (List.mem_cons_of_mem _ member)

theorem start_eq (chain : Chain next start first none) : start = first.head? := by
  cases first with
  | nil => exact chain
  | cons key rest => exact chain.1

theorem next_eq (chain : Chain next start (first ++ key :: second) none) : next key = second.head? := by
  obtain ⟨middle,_,_,rest⟩ := append_iff.mp chain
  exact rest.start_eq

theorem unique (one : Chain next start first none) (two : Chain next start second none) : first = second := by
  induction first generalizing start second with
  | nil =>
      cases one
      cases second with
      | nil => rfl
      | cons key rest => cases two.1
  | cons key rest ih =>
      obtain ⟨here,more⟩ := one
      subst start
      cases second with
      | nil => cases two
      | cons key' rest' =>
          obtain ⟨there,others⟩ := two
          cases there
          rw [ih more others]

theorem ahead {keys : List Key} (passed : Chain next start first (some key)) (whole : Chain next start keys none) :
    ∃ rest, keys = first ++ key :: rest := by
  induction first generalizing start keys with
  | nil =>
      cases passed
      cases keys with
      | nil => cases whole
      | cons other rest =>
          cases whole.1
          exact ⟨rest,rfl⟩
  | cons other more ih =>
      obtain ⟨rfl,passed⟩ := passed
      cases keys with
      | nil => cases whole
      | cons other keys =>
          obtain ⟨same,whole⟩ := whole
          cases same
          obtain ⟨rest,rfl⟩ := ih passed whole
          exact ⟨rest,rfl⟩

-- A key spliced in between two stretches: the last key before it leads to it, it
-- leads to the first key after it, and every other link is as before.
theorem insert (chain : Chain next start (first ++ second) none) (other : Key → Option Key) (child : Key)
    (distinct : (first ++ second).Nodup) (after : other child = second.head?)
    (before : ∀ key, first.getLast? = some key → other key = some child)
    (elsewhere : ∀ key ∈ first ++ second, first.getLast? ≠ some key → other key = next key) :
    Chain other (if first = [] then some child else start) (first ++ child :: second) none := by
  induction first generalizing start with
  | nil =>
      refine ⟨rfl,?_⟩
      have untouched : Chain other start second none :=
        chain.congr other fun key member => elsewhere key member (by simp)
      rw [after,← untouched.start_eq]
      exact untouched
  | cons key rest ih =>
      obtain ⟨here,more⟩ := chain
      have ahead : key ∉ rest ++ second := (List.nodup_cons.mp distinct).1
      refine ⟨by simpa using here,?_⟩
      cases rest with
      | nil =>
          rw [before key rfl]
          exact ih more (List.nodup_cons.mp distinct).2 (by simp)
            fun other member _ => elsewhere other (List.mem_cons_of_mem _ member) (by
              intro same
              cases same
              exact ahead member)
      | cons key' rest' =>
          have notLast : (key :: key' :: rest').getLast? ≠ some key := by
            intro last
            rw [List.getLast?_cons_cons] at last
            exact ahead (List.mem_append_left _ (List.mem_of_getLast? last))
          rw [elsewhere key List.mem_cons_self notLast]
          exact ih more (List.nodup_cons.mp distinct).2
            (fun last found => before last (by rwa [List.getLast?_cons_cons]))
            (fun other member found =>
              elsewhere other (List.mem_cons_of_mem _ member) (by rwa [List.getLast?_cons_cons]))

end Chain
end BoxLayout
