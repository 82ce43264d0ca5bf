import Mathlib.Data.List.Chain
import BoxLayout.Proofs.Json.Text

namespace BoxLayout.Json

-- Every spelling of a value is read as that value: blanks may stand wherever they do not
-- tear a token apart, and a string may spell any of its characters with an escape.

open Token

def quotable : List Char → Bool
  | [] => true
  | '\\' :: 'u' :: a :: b :: c :: d :: rest => [a,b,c,d].all (fun digit => (hexDigit? digit).isSome) && quotable rest
  | '\\' :: c :: rest => decide (c ∈ ['"','\\','/','b','f','n','r','t']) && quotable rest
  | c :: rest => c ≠ '"' && c ≠ '\\' && !decide (c < ' ') && quotable rest

namespace Token

def text : Token → List Char
  | .openArray => ['[']
  | .closeArray => [']']
  | .openObject => ['\x7b']
  | .closeObject => ['\x7d']
  | .comma => [',']
  | .colon => [':']
  | .null => ['n','u','l','l']
  | .bool true => ['t','r','u','e']
  | .bool false => ['f','a','l','s','e']
  | .number spelling => spelling
  | .string spelling => quoted spelling

def legal : Token → Bool
  | .number spelling => (Numeral.read? spelling).isSome
  | .string spelling => quotable spelling
  | _ => true

def bare : Token → Bool
  | .null | .bool _ | .number _ => true
  | _ => false

end Token

def spell (pieces : List (List Char × Token)) (last : List Char) : List Char :=
  pieces.flatMap (fun piece => piece.1 ++ piece.2.text) ++ last

def Spells (json : Json) (text : List Char) : Prop :=
  ∃ pieces last, pieces.map Prod.snd = tokens json ∧ (∀ token ∈ tokens json, token.legal = true) ∧
    (∀ piece ∈ pieces, piece.1.all blank = true) ∧ last.all blank = true ∧ text = spell pieces last

section Apart

-- No two tokens that could run into each other come one right after the other.
def Apart (tokens : List Token) : Prop := tokens.IsChain fun one next => (one.bare && next.bare) = false

variable {token : Token} {front back : List Token}

theorem apart_around (closed : token.bare = false) : Apart (front ++ token :: back) ↔ Apart front ∧ Apart back := by
  unfold Apart
  rw [List.isChain_append,List.isChain_cons]
  simp [closed]

theorem apart_cons (closed : token.bare = false) : Apart (token :: back) ↔ Apart back := by
  rw [← List.nil_append (token :: back),apart_around closed]
  exact and_iff_right .nil

theorem apart_itemTokens {items : List Json} (before : Apart front) (each : ∀ item ∈ items, Apart (tokens item)) :
    Apart (front ++ itemTokens items) := by
  induction items generalizing front with
  | nil => rwa [itemTokens,List.append_nil]
  | cons item items ih =>
      rw [itemTokens,List.cons_append,apart_around rfl]
      exact ⟨before,ih (each item List.mem_cons_self) fun other member => each other (List.mem_cons_of_mem _ member)⟩

theorem apart_memberTokens {members : List (List Char × Json)} (before : Apart front)
    (each : ∀ member ∈ members, Apart (tokens member.2)) : Apart (front ++ memberTokens members) := by
  induction members generalizing front with
  | nil => rwa [memberTokens,List.append_nil]
  | cons member members ih =>
      obtain ⟨key,value⟩ := member
      rw [memberTokens]
      simp only [List.cons_append]
      rw [apart_around rfl,apart_cons rfl,apart_cons rfl]
      exact ⟨before,ih (each (key,value) List.mem_cons_self) fun other member => each other (List.mem_cons_of_mem _ member)⟩

theorem apart_tokens (json : Json) : Apart (tokens json) := by
  induction json with
  | null | bool | number | string => exact .singleton _
  | array items ih =>
      cases items with
      | nil => exact (apart_cons rfl).mpr (.singleton _)
      | cons item items =>
          rw [tokens]
          simp only [List.cons_append]
          rw [apart_cons rfl,apart_around rfl]
          exact ⟨apart_itemTokens (ih item List.mem_cons_self) fun other member => ih other (List.mem_cons_of_mem _ member),.nil⟩
  | object members ih =>
      cases members with
      | nil => exact (apart_cons rfl).mpr (.singleton _)
      | cons member members =>
          obtain ⟨key,value⟩ := member
          rw [tokens]
          simp only [List.cons_append]
          rw [apart_cons rfl,apart_cons rfl,apart_cons rfl,apart_around rfl]
          exact ⟨apart_memberTokens (ih (key,value) List.mem_cons_self) fun other member => ih other (List.mem_cons_of_mem _ member),.nil⟩

end Apart

section Scanning
variable {found : List Token} {rest blanks last : List Char} {token : Token} {pieces : List (List Char × Token)}

theorem scan_blanks (separate : blanks.all blank = true) : scan .between found (blanks ++ rest) = scan .between found rest := by
  induction blanks with
  | nil => rfl
  | cons c blanks ih =>
      rw [List.all_cons,Bool.and_eq_true] at separate
      rw [List.cons_append,scan_blank separate.1,ih separate.2]

theorem scan_quotable {spelling : List Char} (legal : quotable spelling = true) (spelled : List Char) :
    scan (.text spelled) found (spelling ++ '"' :: rest) =
      scan .between (.string (spelled.reverse ++ spelling) :: found) rest := by
  fun_induction quotable spelling generalizing spelled with
  | case1 => simp [scan,Token.step]
  | case2 a b c d more ih =>
      simp only [List.all_cons,List.all_nil,Bool.and_true,Bool.and_eq_true] at legal
      obtain ⟨⟨first,second,third,fourth⟩,legal⟩ := legal
      have digit : ∀ {c}, (hexDigit? c).isSome = true → (hexDigit? c).isNone = false := by simp
      have again := ih legal (d :: c :: b :: a :: 'u' :: '\\' :: spelled)
      simp only [List.reverse_cons,List.append_assoc,List.cons_append,List.nil_append] at again
      simp [scan,Token.step,digit first,digit second,digit third,digit fourth,again]
  | case3 c more _ ih =>
      simp only [Bool.and_eq_true,decide_eq_true_eq] at legal
      obtain ⟨known,legal⟩ := legal
      have unit : c ≠ 'u' := by
        rintro rfl
        exact absurd known (by decide)
      have again := ih legal (c :: '\\' :: spelled)
      simp only [List.reverse_cons,List.append_assoc,List.cons_append,List.nil_append] at again
      change scan (.escape ('\\' :: spelled)) found (c :: (more ++ '"' :: rest)) = _
      simp only [scan,Token.step,if_neg unit,if_pos known]
      exact again
  | case4 c more _ _ ih =>
      simp only [Bool.and_eq_true,decide_eq_true_eq,Bool.not_eq_true',decide_eq_false_iff_not] at legal
      obtain ⟨⟨⟨quote,escape⟩,printable⟩,legal⟩ := legal
      have again := ih legal (c :: spelled)
      simp only [List.reverse_cons,List.append_assoc,List.cons_append,List.nil_append] at again
      simp only [List.cons_append,scan,Token.step,if_neg quote,if_neg escape,if_neg printable]
      exact again

-- A token is read where it stands, if what follows cannot belong to it.
theorem scan_token (legal : token.legal = true) (clear : token.bare = true → Clear rest) :
    scan .between found (token.text ++ rest) = scan .between (token :: found) rest := by
  cases token with
  | openArray | closeArray | openObject | closeObject | comma | colon => exact scan_punctuation rfl
  | null => exact scan_word (by decide) (by decide) (by decide) (clear rfl)
  | bool value => cases value <;> exact scan_word (by decide) (by decide) (by decide) (clear rfl)
  | number spelling =>
      obtain ⟨numeral,read⟩ := Option.isSome_iff_exists.mp legal
      exact scan_number read (clear rfl)
  | string spelling =>
      rw [Token.text,quoted,List.append_assoc]
      exact scan_quotable legal []

theorem clear_text (closed : token.bare = false) : Clear (token.text ++ rest) := by
  cases token with
  | null | bool | number => cases closed
  | _ => exact ⟨by decide,by decide⟩

theorem clear_blanks {c : Char} (separates : blank c = true) : Clear (c :: rest) := by
  simp only [blank,Bool.or_eq_true,decide_eq_true_eq] at separates
  rcases separates with ((rfl | rfl) | rfl) | rfl <;> exact ⟨by decide,by decide⟩

theorem clear_spell (blanks : ∀ piece ∈ pieces, piece.1.all blank = true) (blankEnd : last.all blank = true)
    (closed : ∀ next ∈ (pieces.map Prod.snd).head?, next.bare = false) : Clear (spell pieces last) := by
  rcases pieces with _ | ⟨⟨_ | ⟨c,before⟩,next⟩,more⟩
  · cases last with
    | nil => trivial
    | cons c last => exact clear_blanks (List.all_eq_true.mp blankEnd c List.mem_cons_self)
  · rw [spell,List.flatMap_cons,List.nil_append,List.append_assoc]
    exact clear_text (closed next rfl)
  · exact clear_blanks (List.all_eq_true.mp (blanks _ List.mem_cons_self) c List.mem_cons_self)

theorem scan_spell (blanks : ∀ piece ∈ pieces, piece.1.all blank = true) (blankEnd : last.all blank = true)
    (legal : ∀ token ∈ pieces.map Prod.snd, token.legal = true) (apart : Apart (pieces.map Prod.snd)) :
    scan .between found (spell pieces last) = some (found.reverse ++ pieces.map Prod.snd) := by
  induction pieces generalizing found with
  | nil =>
      have ended := @scan_blanks found [] last blankEnd
      rw [List.append_nil] at ended
      rw [spell,List.flatMap_nil,List.nil_append,ended]
      rfl
  | cons piece pieces ih =>
      obtain ⟨before,token⟩ := piece
      rw [Apart,List.map_cons,List.isChain_cons] at apart
      rw [List.map_cons,List.forall_mem_cons] at legal
      obtain ⟨here,later⟩ := List.forall_mem_cons.mp blanks
      have clear : token.bare = true → Clear (spell pieces last) := fun bare =>
        clear_spell later blankEnd fun next first => by simpa [bare] using apart.1 next first
      change scan .between found ((before ++ token.text ++ pieces.flatMap _) ++ last) = _
      rw [List.append_assoc,List.append_assoc,scan_blanks here]
      change scan .between found (token.text ++ spell pieces last) = _
      rw [scan_token legal.1 clear,ih later legal.2 apart.2,List.map_cons,List.reverse_cons,List.append_assoc]
      rfl

end Scanning

theorem parse?_spells {json : Json} {text : List Char} (spells : Spells json text) : parse? text = some json := by
  obtain ⟨pieces,last,same,legal,blanks,blankEnd,rfl⟩ := spells
  rw [← same] at legal
  unfold parse? ofText?
  rw [scan_spell blanks blankEnd legal (same ▸ apart_tokens json),same]
  exact ofTokens?_tokens json

end BoxLayout.Json
