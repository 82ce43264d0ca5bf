import BoxLayout.Json.Parser
import BoxLayout.Json.Printer

namespace BoxLayout.Json

-- A printed value is read back as it was printed: first its tokens, then the value.

open Token

@[induction_eliminator]
theorem induct {motive : Json → Prop} (null : motive .null) (bool : ∀ value, motive (.bool value))
    (number : ∀ spelling, motive (.number spelling)) (string : ∀ spelling, motive (.string spelling))
    (array : ∀ items, (∀ item ∈ items, motive item) → motive (.array items))
    (object : ∀ members, (∀ member ∈ members, motive member.2) → motive (.object members)) (json : Json) : motive json := by
  refine @Json.rec motive (fun items => ∀ item ∈ items, motive item) (fun members => ∀ member ∈ members, motive member.2)
    (fun member => motive member.2) null bool number string array object ?_ ?_ ?_ ?_ (fun _ _ value => value) json
  · intro item member
    cases member
  · intro item rest one others other member
    rcases List.mem_cons.mp member with rfl | later
    · exact one
    · exact others other later
  · intro item member
    cases member
  · intro item rest one others other member
    rcases List.mem_cons.mp member with rfl | later
    · exact one
    · exact others other later

mutual
def tokens : Json → List Token
  | .null => [.null]
  | .bool value => [.bool value]
  | .number spelling => [.number spelling]
  | .string spelling => [.string spelling]
  | .array [] => [.openArray,.closeArray]
  | .array (item :: rest) => .openArray :: tokens item ++ itemTokens rest ++ [.closeArray]
  | .object [] => [.openObject,.closeObject]
  | .object ((key,value) :: rest) =>
      .openObject :: .string key :: .colon :: tokens value ++ memberTokens rest ++ [.closeObject]
def itemTokens : List Json → List Token
  | [] => []
  | item :: rest => .comma :: tokens item ++ itemTokens rest
def memberTokens : List (List Char × Json) → List Token
  | [] => []
  | (key,value) :: rest => .comma :: .string key :: .colon :: tokens value ++ memberTokens rest
end

section Parsing
open State

variable {stack : List Frame} {rest : List Token}

theorem run_itemTokens {items : List Json} (before : List Json)
    (each : ∀ item ∈ items, ∀ stack rest, run (.awaitValue stack) (tokens item ++ rest) = run (complete item stack) rest) :
    run (.afterItem before stack) (itemTokens items ++ rest) = run (.afterItem (items.reverse ++ before) stack) rest := by
  induction items generalizing before with
  | nil => rfl
  | cons item items ih =>
      simp only [itemTokens,List.cons_append,List.append_assoc]
      change run (.awaitValue (.items before :: stack)) _ = _
      rw [each item List.mem_cons_self]
      change run (.afterItem (item :: before) stack) _ = _
      rw [ih _ fun other member => each other (List.mem_cons_of_mem _ member),List.reverse_cons,List.append_assoc]
      rfl

theorem run_memberTokens {members : List (List Char × Json)} (before : List (List Char × Json))
    (each : ∀ member ∈ members, ∀ stack rest,
      run (.awaitValue stack) (tokens member.2 ++ rest) = run (complete member.2 stack) rest) :
    run (.afterMember before stack) (memberTokens members ++ rest) =
      run (.afterMember (members.reverse ++ before) stack) rest := by
  induction members generalizing before with
  | nil => rfl
  | cons member members ih =>
      obtain ⟨key,value⟩ := member
      simp only [memberTokens,List.cons_append,List.append_assoc]
      change run (.awaitValue (.member before key :: stack)) _ = _
      rw [each (key,value) List.mem_cons_self]
      change run (.afterMember ((key,value) :: before) stack) _ = _
      rw [ih _ fun other member => each other (List.mem_cons_of_mem _ member),List.reverse_cons,List.append_assoc]
      rfl

theorem run_openArray (item : Json) : run (.openArray stack) (tokens item ++ rest) =
    run (.awaitValue (.items [] :: stack)) (tokens item ++ rest) := by
  cases item with
  | null | bool | number | string => rfl
  | array items => cases items <;> rfl
  | object members => rcases members with _ | ⟨⟨_,_⟩,_⟩ <;> rfl

-- The tokens of a value complete it, wherever it stands.
theorem run_tokens (json : Json) (stack : List Frame) (rest : List Token) :
    run (.awaitValue stack) (tokens json ++ rest) = run (complete json stack) rest := by
  induction json generalizing stack rest with
  | null | bool | number | string => rfl
  | array items ih =>
      cases items with
      | nil => rfl
      | cons item items =>
          simp only [tokens,List.cons_append,List.append_assoc]
          change run (.openArray stack) _ = _
          rw [run_openArray,ih item List.mem_cons_self]
          change run (.afterItem [item] stack) _ = _
          rw [run_itemTokens _ fun other member => ih other (List.mem_cons_of_mem _ member)]
          change run (complete (.array (items.reverse ++ [item]).reverse) stack) rest = _
          rw [List.reverse_append,List.reverse_reverse]
          rfl
  | object members ih =>
      cases members with
      | nil => rfl
      | cons member members =>
          obtain ⟨key,value⟩ := member
          simp only [tokens,List.cons_append,List.append_assoc,List.nil_append]
          change run (.awaitValue (.member [] key :: stack)) _ = _
          rw [ih (key,value) List.mem_cons_self]
          change run (.afterMember [(key,value)] stack) _ = _
          rw [run_memberTokens _ fun other member => ih other (List.mem_cons_of_mem _ member)]
          change run (complete (.object (members.reverse ++ [(key,value)]).reverse) stack) rest = _
          rw [List.reverse_append,List.reverse_reverse]
          rfl

theorem ofTokens?_tokens (json : Json) : ofTokens? (tokens json) = some json := by
  have read := run_tokens json [] []
  rw [List.append_nil] at read
  unfold ofTokens?
  rw [read]
  rfl

end Parsing

section Scanning
variable {found : List Token} {rest : List Char} {depth : Nat}

def Plain (spelling : List Char) : Prop := ∀ c ∈ spelling, c ≠ '"' ∧ c ≠ '\\' ∧ ¬c < ' '

instance (spelling : List Char) : Decidable (Plain spelling) := List.decidableBAll _ spelling

inductive Spelled : Json → Prop where
  | null : Spelled .null
  | bool (value : Bool) : Spelled (.bool value)
  | number {spelling : List Char} {numeral : Numeral} : Numeral.read? spelling = some numeral → Spelled (.number spelling)
  | string {spelling : List Char} : Plain spelling → Spelled (.string spelling)
  | array {items : List Json} : (∀ item ∈ items, Spelled item) → Spelled (.array items)
  | object {members : List (List Char × Json)} : (∀ member ∈ members, Plain member.1) →
      (∀ member ∈ members, Spelled member.2) → Spelled (.object members)

def Clear : List Char → Prop
  | [] => True
  | c :: _ => numeric c = false ∧ c.isLower = false

theorem scan_blank {c : Char} (separates : blank c = true) : scan .between found (c :: rest) = scan .between found rest := by
  simp only [scan,Token.step,start,separates,if_true]
  rfl

theorem scan_lineBreak : scan .between found (lineBreak depth ++ rest) = scan .between found rest := by
  have blanks : ∀ count, scan .between found (List.replicate count ' ' ++ rest) = scan .between found rest := by
    intro count
    induction count with
    | zero => rfl
    | succ count ih =>
        rw [List.replicate_succ,List.cons_append,scan_blank (by decide),ih]
  rw [lineBreak,List.cons_append,scan_blank (by decide),blanks]

theorem scan_text {spelling : List Char} (plain : Plain spelling) (spelled : List Char) :
    scan (.text spelled) found (spelling ++ '"' :: rest) =
      scan .between (.string (spelled.reverse ++ spelling) :: found) rest := by
  induction spelling generalizing spelled with
  | nil => simp [scan,Token.step]
  | cons c spelling ih =>
      obtain ⟨quote,escape,printable⟩ := plain c List.mem_cons_self
      rw [List.cons_append]
      simp only [scan,Token.step,if_neg quote,if_neg escape,if_neg printable]
      rw [List.reverse_nil,List.nil_append,ih fun other member => plain other (List.mem_cons_of_mem _ member)]
      rw [List.reverse_cons,List.append_assoc]
      rfl

theorem scan_quoted {spelling : List Char} (plain : Plain spelling) :
    scan .between found (quoted spelling ++ rest) = scan .between (.string spelling :: found) rest := by
  rw [quoted,List.append_assoc]
  exact scan_text plain []

theorem scan_letters {spelling : List Char} {token : Token} (lower : ∀ c ∈ spelling, c.isLower = true)
    (spelled : List Char) (read : ofWord? (spelled.reverse ++ spelling) = some token) (clear : Clear rest) :
    scan (.word spelled) found (spelling ++ rest) = scan .between (token :: found) rest := by
  induction spelling generalizing spelled with
  | nil =>
      rw [List.append_nil] at read
      cases rest with
      | nil => simp [scan,finish,read]
      | cons c rest =>
          simp only [List.nil_append,scan,Token.step,clear.2,ended,read]
          cases start c with
          | none => rfl
          | some next => simp
  | cons c spelling ih =>
      simp only [List.cons_append,scan,Token.step,lower c List.mem_cons_self,if_true]
      refine ih (fun other member => lower other (List.mem_cons_of_mem _ member)) _ ?_
      rwa [List.reverse_cons,List.append_assoc]

theorem scan_word {c : Char} {spelling : List Char} {token : Token} (begun : start c = some ([],.word [c]))
    (lower : spelling.all Char.isLower = true) (read : ofWord? (c :: spelling) = some token) (clear : Clear rest) :
    scan .between found (c :: spelling ++ rest) = scan .between (token :: found) rest := by
  simp only [List.cons_append,scan,Token.step,begun]
  exact scan_letters (List.all_eq_true.mp lower) [c] read clear

theorem numeric_of_digit {c : Char} (digit : c.isDigit = true) : numeric c = true := by
  simp [numeric,digit]

theorem numeric_exponent? {text : List Char} {exponent : Int} (read : Decimal.exponent? text = some exponent) :
    ∀ c ∈ text, numeric c = true := by
  cases text with
  | nil => simp
  | cons mark text =>
      have signed : ∀ c ∈ text, c ∈ (Decimal.sign? true text).2 ∨ numeric c = true := by
        intro c member
        unfold Decimal.sign?
        split
        · rcases List.mem_cons.mp member with rfl | later
          · exact .inr (by decide)
          · exact .inl later
        · rcases List.mem_cons.mp member with rfl | later
          · exact .inr (by decide)
          · exact .inl later
        · exact .inl member
      simp only [Decimal.exponent?] at read
      split at read
      · rename_i marked
        split at read
        · rename_i digits
          intro c member
          rcases List.mem_cons.mp member with rfl | later
          · rcases marked with rfl | rfl <;> decide
          · rcases signed c later with digit | sign
            · exact numeric_of_digit (List.all_eq_true.mp digits.2 c digit)
            · exact sign
        · cases read
      · cases read

theorem numeric_takeWhile {text : List Char} (after : ∀ c ∈ text.dropWhile Decimal.Digit, numeric c = true) :
    ∀ c ∈ text, numeric c = true := by
  intro c member
  rw [← List.takeWhile_append_dropWhile (p := Decimal.Digit) (l := text)] at member
  rcases List.mem_append.mp member with digit | later
  · exact numeric_of_digit (List.all_eq_true.mp List.all_takeWhile c digit)
  · exact after c later

theorem numeric_fraction? {text : List Char} (after : ∀ c ∈ (Decimal.fraction? text).2, numeric c = true) :
    ∀ c ∈ text, numeric c = true := by
  unfold Decimal.fraction? at after
  split at after
  · intro c member
    rcases List.mem_cons.mp member with rfl | later
    · decide
    · exact numeric_takeWhile after c later
  · exact after

theorem numeric_read? {text : List Char} {numeral : Numeral} (read : Numeral.read? text = some numeral) :
    (∀ c ∈ text, numeric c = true) ∧ ∃ c rest, text = c :: rest ∧ (c.isDigit = true ∨ c = '-') := by
  unfold Numeral.read? at read
  dsimp only at read
  split at read
  · cases read
  · rename_i whole
    split at read
    · cases read
    · obtain ⟨exponent,expanded,_⟩ := Option.map_eq_some_iff.mp read
      have digits := numeric_takeWhile (numeric_fraction? (numeric_exponent? expanded))
      have first : ∃ c rest, (Decimal.sign? false text).2 = c :: rest ∧ c.isDigit = true := by
        cases unsigned : (Decimal.sign? false text).2 with
        | nil => simp [unsigned] at whole
        | cons c rest =>
            by_cases digit : c.isDigit = true
            · exact ⟨c,rest,rfl,digit⟩
            · simp [unsigned,Decimal.Digit,digit] at whole
      obtain ⟨c,rest,unsigned,digit⟩ := first
      rcases text with _ | ⟨sign,text⟩
      · cases unsigned
      · by_cases minus : sign = '-'
        · subst minus
          refine ⟨fun c member => ?_,'-',text,rfl,.inr rfl⟩
          rcases List.mem_cons.mp member with rfl | later
          · decide
          · exact digits c later
        · have same : (Decimal.sign? false (sign :: text)).2 = sign :: text := by
            unfold Decimal.sign?
            split <;> simp_all
          rw [same] at digits unsigned
          cases unsigned
          exact ⟨digits,_,_,rfl,.inl digit⟩

theorem scan_numeral {spelling : List Char} {numeral : Numeral} (numerics : ∀ c ∈ spelling, numeric c = true)
    (spelled : List Char) (read : Numeral.read? (spelled.reverse ++ spelling) = some numeral) (clear : Clear rest) :
    scan (.numeral spelled) found (spelling ++ rest) = scan .between (.number (spelled.reverse ++ spelling) :: found) rest := by
  induction spelling generalizing spelled with
  | nil =>
      rw [List.append_nil] at read ⊢
      cases rest with
      | nil => simp [scan,finish,ofNumeral?,read]
      | cons c rest =>
          simp only [List.nil_append,scan,Token.step,clear.1,ended,ofNumeral?,read]
          cases start c with
          | none => rfl
          | some next => simp
  | cons c spelling ih =>
      simp only [List.cons_append,scan,Token.step,numerics c List.mem_cons_self,if_true]
      have again := ih (fun other member => numerics other (List.mem_cons_of_mem _ member)) (c :: spelled)
        (by rwa [List.reverse_cons,List.append_assoc])
      rwa [List.reverse_cons,List.append_assoc] at again

theorem scan_number {spelling : List Char} {numeral : Numeral} (read : Numeral.read? spelling = some numeral)
    (clear : Clear rest) : scan .between found (spelling ++ rest) = scan .between (.number spelling :: found) rest := by
  obtain ⟨numerics,c,more,rfl,first⟩ := numeric_read? read
  have apart : blank c = false ∧ c ≠ '"' := by
    constructor
    · rw [Bool.eq_false_iff]
      intro separates
      simp only [blank,Bool.or_eq_true,decide_eq_true_eq] at separates
      rcases separates with ((rfl | rfl) | rfl) | rfl <;> exact absurd first (by decide)
    · rintro rfl
      exact absurd first (by decide)
  have begun : start c = some ([],.numeral [c]) := by
    simp [start,apart,first]
  simp only [List.cons_append,scan,Token.step,begun]
  exact scan_numeral (fun other member => numerics other (List.mem_cons_of_mem _ member)) [c] (by simpa using read) clear

theorem clear_lineBreak : Clear (lineBreak depth ++ rest) := ⟨by decide,by decide⟩

theorem clear_prettyItems (items : List Json) (clear : Clear rest) : Clear (prettyItems depth items ++ rest) := by
  cases items with
  | nil => exact clear
  | cons => rw [prettyItems]; exact ⟨by decide,by decide⟩

theorem clear_prettyMembers (members : List (List Char × Json)) (clear : Clear rest) :
    Clear (prettyMembers depth members ++ rest) := by
  rcases members with _ | ⟨⟨_,_⟩,_⟩
  · exact clear
  · rw [prettyMembers]
    exact ⟨by decide,by decide⟩

theorem scan_punctuation {c : Char} {token : Token} (read : start c = some ([token],.between)) :
    scan .between found (c :: rest) = scan .between (token :: found) rest := by
  simp only [scan,Token.step,read]
  rfl

theorem scan_prettyItems {items : List Json} (clear : Clear rest)
    (each : ∀ item ∈ items, ∀ depth found rest, Clear rest →
      scan .between found (pretty depth item ++ rest) = scan .between ((tokens item).reverse ++ found) rest) :
    scan .between found (prettyItems depth items ++ rest) = scan .between ((itemTokens items).reverse ++ found) rest := by
  induction items generalizing found with
  | nil => rw [prettyItems,itemTokens]; rfl
  | cons item items ih =>
      rw [prettyItems,itemTokens]
      simp only [List.cons_append,List.append_assoc,List.reverse_cons,List.reverse_append,List.nil_append]
      rw [scan_punctuation rfl,scan_lineBreak,each item List.mem_cons_self _ _ _ (clear_prettyItems items clear),
        ih fun other member => each other (List.mem_cons_of_mem _ member)]

theorem scan_member {key : List Char} {value : Json} (plain : Plain key) (clear : Clear rest)
    (read : ∀ depth found rest, Clear rest →
      scan .between found (pretty depth value ++ rest) = scan .between ((tokens value).reverse ++ found) rest) :
    scan .between found (lineBreak depth ++ (quoted key ++ ':' :: ' ' :: (pretty depth value ++ rest))) =
      scan .between ((tokens value).reverse ++ .colon :: .string key :: found) rest := by
  rw [scan_lineBreak,scan_quoted plain,scan_punctuation rfl,scan_blank (by decide),read _ _ _ clear]

theorem scan_prettyMembers {members : List (List Char × Json)} (clear : Clear rest)
    (plain : ∀ member ∈ members, Plain member.1)
    (each : ∀ member ∈ members, ∀ depth found rest, Clear rest →
      scan .between found (pretty depth member.2 ++ rest) = scan .between ((tokens member.2).reverse ++ found) rest) :
    scan .between found (prettyMembers depth members ++ rest) =
      scan .between ((memberTokens members).reverse ++ found) rest := by
  induction members generalizing found with
  | nil => rw [prettyMembers,memberTokens]; rfl
  | cons member members ih =>
      obtain ⟨key,value⟩ := member
      rw [prettyMembers,memberTokens]
      simp only [List.cons_append,List.append_assoc,List.reverse_cons,List.reverse_append,List.nil_append]
      rw [scan_punctuation rfl,scan_member (plain _ List.mem_cons_self) (clear_prettyMembers members clear)
          (each (key,value) List.mem_cons_self),
        ih (fun other member => plain other (List.mem_cons_of_mem _ member))
          fun other member => each other (List.mem_cons_of_mem _ member)]

theorem scan_pretty {json : Json} (spelled : Spelled json) (depth : Nat) (found : List Token) (rest : List Char)
    (clear : Clear rest) :
    scan .between found (pretty depth json ++ rest) = scan .between ((tokens json).reverse ++ found) rest := by
  induction spelled generalizing depth found rest with
  | null =>
      rw [pretty,tokens]
      exact scan_word (by decide) (by decide) (by decide) clear
  | bool value =>
      cases value <;> rw [pretty,tokens] <;> exact scan_word (by decide) (by decide) (by decide) clear
  | number read =>
      rw [pretty,tokens]
      exact scan_number read clear
  | string plain =>
      rw [pretty,tokens]
      exact scan_quoted plain
  | @array items _ ih =>
      cases items with
      | nil =>
          rw [pretty,tokens]
          exact (scan_punctuation rfl).trans (scan_punctuation rfl)
      | cons item items =>
          rw [pretty,tokens]
          simp only [List.cons_append,List.append_assoc,List.reverse_cons,List.reverse_append,List.nil_append]
          rw [scan_punctuation rfl,scan_lineBreak,
            ih item List.mem_cons_self _ _ _ (clear_prettyItems items clear_lineBreak),
            scan_prettyItems clear_lineBreak fun other member => ih other (List.mem_cons_of_mem _ member),
            scan_lineBreak,scan_punctuation rfl]
          rfl
  | @object members plain _ ih =>
      cases members with
      | nil =>
          rw [pretty,tokens]
          exact (scan_punctuation rfl).trans (scan_punctuation rfl)
      | cons member members =>
          obtain ⟨key,value⟩ := member
          rw [pretty,tokens]
          simp only [List.cons_append,List.append_assoc,List.reverse_cons,List.reverse_append,List.nil_append]
          rw [scan_punctuation rfl,
            scan_member (plain _ List.mem_cons_self) (clear_prettyMembers members clear_lineBreak)
              (ih (key,value) List.mem_cons_self),
            scan_prettyMembers clear_lineBreak (fun other member => plain other (List.mem_cons_of_mem _ member))
              fun other member => ih other (List.mem_cons_of_mem _ member),
            scan_lineBreak,scan_punctuation rfl]
          rfl

theorem parse?_pretty {json : Json} (spelled : Spelled json) (depth : Nat) : parse? (pretty depth json) = some json := by
  have scanned := scan_pretty spelled depth [] [] trivial
  rw [List.append_nil,List.append_nil] at scanned
  unfold parse? ofText?
  rw [scanned]
  simp [scan,finish,ofTokens?_tokens]

end Scanning
end BoxLayout.Json
