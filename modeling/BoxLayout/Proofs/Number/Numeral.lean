import Mathlib.Data.List.Basic
import Mathlib.Data.List.TakeWhile
import BoxLayout.Number.Reader
import BoxLayout.Number.Text

namespace BoxLayout

-- Whatever is written as a number is read as one: its parts come apart where they
-- were joined.

namespace Decimal

theorem ofDigits_digits (n : Nat) : ofDigits (digits n) = n :=
  Nat.ofDigitChars_toDigits (by decide) (by decide)

theorem isDigit_of_mem_digits {n : Nat} {c : Char} (member : c ∈ digits n) : c.isDigit = true :=
  Nat.isDigit_of_mem_toDigits (by decide) (by decide) member

theorem digits_ne_nil (n : Nat) : digits n ≠ [] := Nat.toDigits_ne_nil

theorem head?_digits {n : Nat} (positive : 0 < n) : (digits n).head? ≠ some '0' := by
  induction n using Nat.strongRecOn with
  | ind n ih =>
      unfold digits at ih ⊢
      by_cases small : n < 10
      · rw [Nat.toDigits_of_lt_base small,List.head?_cons,ne_eq,Option.some.injEq,Nat.digitChar_eq_zero]
        omega
      · rw [Nat.toDigits_of_base_le (by decide) (by omega),List.head?_append_of_ne_nil _ Nat.toDigits_ne_nil]
        exact ih (n / 10) (by omega) (by omega)

theorem exponent?_signed (exponent : Int) :
    exponent? ('e' :: (if exponent < 0 then '-' else '+') :: digits exponent.natAbs) = some exponent := by
  have proper : digits exponent.natAbs ≠ [] ∧ (digits exponent.natAbs).all Digit = true :=
    ⟨digits_ne_nil _,List.all_eq_true.mpr fun _ => isDigit_of_mem_digits⟩
  by_cases negative : exponent < 0
  · simp only [exponent?,if_pos negative,sign?,true_or,if_true,if_pos proper,ofDigits_digits,Option.some.injEq]
    omega
  · simp only [exponent?,if_neg negative,sign?,true_or,if_true,if_pos proper,ofDigits_digits,Bool.false_eq_true,if_false,
      Option.some.injEq]
    omega

end Decimal

namespace Numeral
open Decimal

structure Whole (whole : List Char) : Prop where
  nonempty : whole ≠ []
  digit : ∀ c ∈ whole, c.isDigit = true
  leading : whole.length = 1 ∨ whole.head? ≠ some '0'

def pointed : Option (List Char) → List Char
  | none => []
  | some fraction => '.' :: fraction

variable {whole tail : List Char} {fraction : Option (List Char)} {exponent : Int}

theorem Whole.sign (proper : Whole whole) (negative : Bool) (rest : List Char) :
    sign? false (Single.sign negative ++ (whole ++ rest)) = (negative,whole ++ rest) := by
  cases negative with
  | true => rfl
  | false =>
      obtain ⟨nonempty,digit,_⟩ := proper
      cases whole with
      | nil => exact absurd rfl nonempty
      | cons c whole =>
          have first := digit c List.mem_cons_self
          have minus : c ≠ '-' := by
            rintro rfl
            exact absurd first (by decide)
          have plus : c ≠ '+' := by
            rintro rfl
            exact absurd first (by decide)
          simp [Single.sign,sign?,minus,plus]

-- An exponent begins with its mark, so no digit runs into it.
theorem stops_exponent (read : exponent? tail = some exponent) :
    tail.takeWhile Digit = [] ∧ tail.dropWhile Digit = tail ∧ fraction? tail = (none,tail) := by
  cases tail with
  | nil => exact ⟨rfl,rfl,rfl⟩
  | cons mark tail =>
      have marked : mark = 'e' ∨ mark = 'E' := by
        simp only [exponent?] at read
        split at read
        · assumption
        · cases read
      rcases marked with rfl | rfl <;> exact ⟨rfl,rfl,rfl⟩

theorem fraction?_pointed (digit : ∀ digits, fraction = some digits → ∀ c ∈ digits, c.isDigit = true)
    (read : exponent? tail = some exponent) : fraction? (pointed fraction ++ tail) = (fraction,tail) := by
  obtain ⟨none_taken,all_left,unpointed⟩ := stops_exponent read
  cases fraction with
  | none => exact unpointed
  | some digits =>
      have each : ∀ c ∈ digits, Digit c = true := digit digits rfl
      change (some ((digits ++ tail).takeWhile Digit),(digits ++ tail).dropWhile Digit) = _
      rw [List.takeWhile_append_of_pos each,List.dropWhile_append_of_pos each,none_taken,all_left,List.append_nil]

theorem read?_parts (negative : Bool) (fraction : Option (List Char)) (proper : Whole whole) (some_digit : fraction ≠ some [])
    (digit : ∀ digits, fraction = some digits → ∀ c ∈ digits, c.isDigit = true) (read : exponent? tail = some exponent) :
    read? (Single.sign negative ++ (whole ++ (pointed fraction ++ tail))) =
      some ⟨negative,whole,fraction.getD [],exponent,fraction.isNone && tail.isEmpty⟩ := by
  obtain ⟨none_taken,all_left,_⟩ := stops_exponent read
  have outside : (pointed fraction ++ tail).takeWhile Digit = [] ∧
      (pointed fraction ++ tail).dropWhile Digit = pointed fraction ++ tail := by
    cases fraction with
    | none => exact ⟨none_taken,all_left⟩
    | some digits => exact ⟨rfl,rfl⟩
  have accepted : ¬(whole = [] ∨ (1 < whole.length ∧ whole.head? = some '0')) := by
    rintro (empty | ⟨long,zero⟩)
    · exact proper.nonempty empty
    · rcases proper.leading with one | first
      · omega
      · exact first zero
  have each : ∀ c ∈ whole, Digit c = true := proper.digit
  unfold read?
  simp only [proper.sign,List.takeWhile_append_of_pos each,List.dropWhile_append_of_pos each,outside,List.append_nil,
    if_neg accepted,fraction?_pointed digit read,if_neg some_digit,read,Option.map_some]

theorem whole_digits (n : Nat) : Whole (digits n) where
  nonempty := digits_ne_nil n
  digit _ := isDigit_of_mem_digits
  leading := by
    rcases Nat.eq_zero_or_pos n with rfl | positive
    · exact .inl rfl
    · exact .inr (head?_digits positive)

theorem read?_digits (n : Nat) : read? (digits n) = some ⟨false,digits n,[],0,true⟩ := by
  have read := read?_parts false none (whole_digits n) nofun nofun (show exponent? [] = some 0 from rfl)
  simpa [Single.sign,pointed] using read

end Numeral

namespace Digits
open Decimal

structure Proper (d : Digits) : Prop where
  nonempty : d.digits ≠ []
  digit : ∀ c ∈ d.digits, c.isDigit = true
  leading : d.digits.head? ≠ some '0'

theorem ReadsBack.positive {quanta : Nat} {d : Decimal} (positive : 0 < quanta) (back : ReadsBack quanta d) :
    0 < d.coefficient := by
  apply Nat.pos_of_ne_zero
  intro zero
  have units : d.units? Number.Format.single = some 0 := by simp [units?,zero]
  rw [ReadsBack,units,Option.some.injEq] at back
  omega

theorem readsBack_onGrid? {tie : Tie} {quanta count : Nat} {d : Decimal} (found : onGrid? tie quanta count = some d) :
    ReadsBack quanta d := by
  unfold onGrid? at found
  dsimp only at found
  split at found
  · rename_i lower
    split at found
    · rename_i upper
      cases found
      exact upper.1
    · cases found
      exact lower
  · split at found
    · rename_i upper
      cases found
      exact upper
    · cases found

theorem proper_ofDecimal {d : Decimal} (positive : 0 < d.coefficient) : (ofDecimal d).Proper := by
  have kept : (ofDecimal d).digits <+: Decimal.digits d.coefficient := by
    unfold ofDecimal
    rw [← List.reverse_suffix,List.reverse_reverse]
    exact List.dropWhile_suffix _
  obtain ⟨stripped,joined⟩ := kept
  have leading := head?_digits positive
  have nonempty : (ofDecimal d).digits ≠ [] := by
    intro empty
    have zeros : ∀ c ∈ (Decimal.digits d.coefficient).reverse, (decide (c = '0')) = true := by
      rw [ofDecimal,List.reverse_eq_nil_iff,List.dropWhile_eq_nil_iff] at empty
      exact empty
    cases all : Decimal.digits d.coefficient with
    | nil => exact digits_ne_nil _ all
    | cons c rest =>
        have zero := zeros c (by simp [all])
        simp only [decide_eq_true_eq] at zero
        simp [all,zero] at leading
  refine ⟨nonempty,fun c member => ?_,?_⟩
  · exact isDigit_of_mem_digits (joined ▸ List.mem_append_left _ member)
  · rwa [← joined,List.head?_append_of_ne_nil _ nonempty] at leading

theorem proper_shortest (tie : Tie) {quanta : Nat} (positive : 0 < quanta) : (shortest tie quanta).Proper := by
  unfold shortest
  apply proper_ofDecimal
  cases found : (List.range' 1 9).findSome? (onGrid? tie quanta) with
  | none => exact Nat.mul_pos positive (by decide)
  | some d =>
      obtain ⟨count,_,onGrid⟩ := List.exists_of_findSome?_eq_some found
      exact (readsBack_onGrid? onGrid).positive positive

theorem isDigit_of_mem_zeros {count : Int} {c : Char} (member : c ∈ zeros count) : c.isDigit = true := by
  rw [List.eq_of_mem_replicate member]
  rfl

def numeral (d : Digits) (negative : Bool) : Numeral :=
  if -5 ≤ d.point ∧ d.point ≤ 13 then
    if d.point ≤ 0 then ⟨negative,['0'],zeros (-d.point) ++ d.digits,0,false⟩
    else if d.digits.length ≤ d.point then ⟨negative,d.digits ++ zeros (d.point - d.digits.length),['0'],0,false⟩
    else ⟨negative,d.digits.take d.point.toNat,d.digits.drop d.point.toNat,0,false⟩
  else ⟨negative,d.digits.take 1,d.digits.drop 1,d.point - 1,false⟩

variable {d : Digits} (proper : d.Proper)
include proper

theorem Proper.read?_scientific (negative : Bool) : Numeral.read? (Single.sign negative ++ d.scientific) =
    some ⟨negative,d.digits.take 1,d.digits.drop 1,d.point - 1,false⟩ := by
  obtain ⟨nonempty,digit,_⟩ := proper
  obtain ⟨digits,point⟩ := d
  cases digits with
  | nil => exact absurd rfl nonempty
  | cons first rest =>
      have whole : Numeral.Whole [first] := ⟨by simp,fun c member => digit c (by simp_all),.inl rfl⟩
      have exponent := exponent?_signed (point - 1)
      by_cases none : rest = []
      · have read := Numeral.read?_parts negative .none whole nofun nofun exponent
        simpa [scientific,none,Numeral.pointed] using read
      · have read := Numeral.read?_parts negative (some rest) whole (by simpa using none)
          (fun digits same c member => digit c (by simp_all)) exponent
        simpa [scientific,none,Numeral.pointed] using read

theorem Proper.read?_positional (negative : Bool) (near : -5 ≤ d.point ∧ d.point ≤ 13) : Numeral.read? (Single.sign negative ++
    (d.positional ++ if d.digits.length ≤ d.point then ['.','0'] else [])) = some (d.numeral negative) := by
  obtain ⟨nonempty,digit,leading⟩ := proper
  have some_digit := List.length_pos_iff.mpr nonempty
  have ended : exponent? [] = some 0 := rfl
  unfold positional numeral
  rw [if_pos near]
  by_cases small : d.point ≤ 0
  · have short : ¬(d.digits.length : Int) ≤ d.point := by omega
    have whole : Numeral.Whole ['0'] := ⟨by simp,by simp,.inl rfl⟩
    have read := Numeral.read?_parts negative (some (zeros (-d.point) ++ d.digits)) whole (by simp [nonempty])
      (fun digits same c member => by
        cases same
        rcases List.mem_append.mp member with zero | later
        · exact isDigit_of_mem_zeros zero
        · exact digit c later) ended
    simpa [small,short,Numeral.pointed] using read
  · by_cases long : (d.digits.length : Int) ≤ d.point
    · have whole : Numeral.Whole (d.digits ++ zeros (d.point - d.digits.length)) := by
        refine ⟨by simp [nonempty],fun c member => ?_,.inr (by rwa [List.head?_append_of_ne_nil _ nonempty])⟩
        rcases List.mem_append.mp member with here | zero
        · exact digit c here
        · exact isDigit_of_mem_zeros zero
      have read := Numeral.read?_parts negative (some ['0']) whole (by simp)
        (fun digits same c member => by
          cases same
          rw [List.mem_singleton.mp member]
          rfl) ended
      simpa [small,long,Numeral.pointed] using read
    · have taken : d.digits.take d.point.toNat ≠ [] := by
        rw [← List.length_pos_iff,List.length_take]
        omega
      have left : d.digits.drop d.point.toNat ≠ [] := by
        rw [← List.length_pos_iff,List.length_drop]
        omega
      have whole : Numeral.Whole (d.digits.take d.point.toNat) := by
        refine ⟨taken,fun c member => digit c (List.mem_of_mem_take member),.inr ?_⟩
        rwa [← List.take_append_drop d.point.toNat d.digits,List.head?_append_of_ne_nil _ taken] at leading
      have read := Numeral.read?_parts negative (some (d.digits.drop d.point.toNat)) whole (by simpa using left)
        (fun digits same c member => by
          cases same
          exact digit c (List.mem_of_mem_drop member)) ended
      simpa [small,long,Numeral.pointed] using read

end Digits

namespace Single

theorem numeral?_zero (negative : Bool) (representable : Representable 0) :
    (finite negative 0 representable).numeral?.bind Numeral.read? = some ⟨negative,['0'],['0'],0,false⟩ := by
  cases negative <;> rfl

theorem numeral?_positive (negative : Bool) {quanta : Nat} (representable : Representable quanta) (positive : 0 < quanta) :
    (finite negative quanta representable).numeral?.bind Numeral.read? = some ((Digits.shortest .even quanta).numeral negative) := by
  have proper := Digits.proper_shortest .even positive
  unfold numeral?
  dsimp only
  rw [if_neg (Nat.ne_of_gt positive),Option.bind_some]
  split
  · rename_i near
    exact proper.read?_positional negative near
  · rename_i far
    rw [proper.read?_scientific,Digits.numeral,if_neg far]

theorem read?_numeral? {x : Single} {spelling : List Char} (spelled : x.numeral? = some spelling) :
    ∃ numeral, Numeral.read? spelling = some numeral := by
  cases x with
  | nan => cases spelled
  | infinite => cases spelled
  | finite negative quanta representable =>
      have read : ∃ numeral, (finite negative quanta representable).numeral?.bind Numeral.read? = some numeral := by
        rcases Nat.eq_zero_or_pos quanta with rfl | positive
        · exact ⟨_,numeral?_zero negative representable⟩
        · exact ⟨_,numeral?_positive negative representable positive⟩
      rwa [spelled] at read

end Single
end BoxLayout
