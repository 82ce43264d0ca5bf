import Mathlib.Data.List.Forall2
import Mathlib.Data.List.Nodup
import Mathlib.Data.List.TakeWhile
import BoxLayout.Proofs.Json.Text
import BoxLayout.Proofs.Number.Numeral
import BoxLayout.Snapshot.Text

namespace BoxLayout.Json

-- Records as they are written, read back field by field.

theorem mapM_eq_some {α β : Type} {read? : α → Option β} {xs : List α} {ys : List β} :
    xs.mapM read? = some ys ↔ List.Forall₂ (fun x y => read? x = some y) xs ys := by
  induction xs generalizing ys with
  | nil => cases ys <;> simp
  | cons x xs ih =>
      rw [List.mapM_cons]
      constructor
      · intro read
        obtain ⟨y,one,read⟩ := Option.bind_eq_some_iff.mp read
        obtain ⟨rest,others,same⟩ := Option.bind_eq_some_iff.mp read
        cases same
        exact .cons one (ih.mp others)
      · intro each
        cases each with
        | cons one others => rw [one,ih.mpr others]; rfl

theorem pieces?_plain {spelling : List Char} (plain : Plain spelling) :
    pieces? .plain spelling = some (spelling.map .char) := by
  induction spelling with
  | nil => rfl
  | cons c spelling ih =>
      rw [pieces?,if_neg (plain c List.mem_cons_self).2.1,ih fun other member => plain other (List.mem_cons_of_mem _ member)]
      rfl

theorem join?_chars (text : List Char) : join? none (text.map .char) = some text := by
  induction text with
  | nil => rfl
  | cons c text ih => rw [List.map_cons,join?,ih]; rfl

theorem text?_plain {spelling : List Char} (plain : Plain spelling) : text? spelling = some spelling := by
  rw [text?,pieces?_plain plain]
  exact join?_chars spelling

section Fields
variable {names : List String} {values : List Json} {members : List (List Char × Json)} {name : String} {value : Json}

theorem unique?_of_mem (distinct : (members.map Prod.fst).Nodup) (member : (name.toList,value) ∈ members) :
    unique? members name = some (some value) := by
  have found : (members.filter fun member => member.1 = name.toList) = [(name.toList,value)] := by
    have only : ∀ other ∈ members, other.1 = name.toList → other = (name.toList,value) := fun other listed same =>
      List.inj_on_of_nodup_map distinct listed member same
    have once : members.Nodup := distinct.of_map _
    refine List.perm_singleton.mp ((List.perm_ext_iff_of_nodup (once.filter _) (List.nodup_singleton _)).mpr fun other => ?_)
    rw [List.mem_filter,List.mem_singleton,decide_eq_true_eq]
    exact ⟨fun ⟨listed,same⟩ => only other listed same,fun same => by rw [same]; exact ⟨member,rfl⟩⟩
  unfold unique?
  rw [found]

theorem fields?_record (distinct : names.Nodup) (plain : ∀ name ∈ names, Plain name.toList)
    (length : names.length = values.length) : fields? names (record names values) = some (values.map some) := by
  have keys : (((names.map String.toList).zip values).map Prod.fst) = names.map String.toList :=
    List.map_fst_zip (by rw [List.length_map]; exact Nat.le_of_eq length)
  have decoded : ((names.map String.toList).zip values).mapM (fun member => (text? member.1).map (·,member.2)) =
      some ((names.map String.toList).zip values) := by
    refine mapM_eq_some.mpr (List.forall₂_same.mpr fun member listed => ?_)
    obtain ⟨name,named,same⟩ := List.mem_map.mp (List.of_mem_zip listed).1
    rw [← same,text?_plain (plain name named),Option.map_some,same]
  simp only [fields?,record,decoded,Option.bind_some]
  refine mapM_eq_some.mpr ?_
  rw [List.forall₂_map_right_iff,List.forall₂_iff_zip]
  refine ⟨length,fun {name value} listed => unique?_of_mem ?_ ?_⟩
  · rw [keys]
    exact distinct.map fun _ _ => String.toList_injective
  · rw [List.zip_map_left]
    exact List.mem_map_of_mem listed

end Fields

theorem spelled_ofWord (word : Word) : Spelled (ofWord word) := .number (Numeral.read?_digits _)

theorem word?_ofWord (word : Word) : word? (ofWord word) = some word := by
  have small := word.isLt
  simp only [word?,ofWord,Numeral.read?_digits,Decimal.ofDigits_digits]
  rw [if_pos ⟨trivial,trivial,small⟩,BitVec.ofNat_toNat,BitVec.setWidth_eq]

end BoxLayout.Json
