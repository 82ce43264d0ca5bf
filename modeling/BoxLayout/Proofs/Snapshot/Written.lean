import Mathlib.Data.List.Perm.Basic
import BoxLayout.Proofs.Json.Spaced
import BoxLayout.Proofs.Snapshot.Printed

namespace BoxLayout

-- The ways to write a snapshot: a node as an object with its fields in any order, those with
-- default values left out or not, among members nobody reads; or as an array of its fields
-- with the last ones left out. All are read as the snapshot.

namespace Json

def Filled (field : Json × Json) (read : Option Json) : Prop :=
  read = some field.1 ∨ read = none ∧ field.1 = field.2

def Ignored (names : List String) (member : List Char × Json) : Prop :=
  (∀ name ∈ names, member.1 ≠ name.toList) ∧
    match member.2 with
    | .null | .bool _ | .string _ => True
    | _ => False

variable {names : List String} {name : String} {values defaults : List Json} {value default : Json}
  {members kept extra : List (List Char × Json)}

theorem unique?_perm (reordered : members.Perm kept) : unique? members name = unique? kept name := by
  have same := reordered.filter fun member => member.1 = name.toList
  unfold unique?
  generalize members.filter (fun member => member.1 = name.toList) = one at same
  generalize kept.filter (fun member => member.1 = name.toList) = two at same
  rcases two with _ | ⟨a,_ | ⟨b,rest⟩⟩
  · rw [List.perm_nil.mp same]
  · rw [List.perm_singleton.mp same]
  · rcases one with _ | ⟨c,_ | ⟨d,more⟩⟩
    · cases List.nil_perm.mp same
    · cases List.singleton_perm.mp same
    · rfl

theorem unique?_append (others : ∀ member ∈ extra, member.1 ≠ name.toList) :
    unique? (kept ++ extra) name = unique? kept name := by
  have none : extra.filter (fun member => member.1 = name.toList) = [] :=
    List.filter_eq_nil_iff.mpr fun member listed => by simpa using others member listed
  unfold unique?
  rw [List.filter_append,none,List.append_nil]

theorem unique?_missing (missing : ∀ member ∈ members, member.1 ≠ name.toList) : unique? members name = some none :=
  @unique?_append name [] members missing

theorem exists_unique? {fields : List (List Char × Json)} (distinct : (fields.map Prod.fst).Nodup)
    (kept_of : kept.Sublist fields) (listed : (name.toList,value) ∈ fields)
    (defaulted : (name.toList,value) ∉ kept → value = default) : ∃ read, unique? kept name = some read ∧ Filled (value,default) read := by
  by_cases member : (name.toList,value) ∈ kept
  · exact ⟨_,unique?_of_mem (distinct.sublist (kept_of.map _)) member,.inl rfl⟩
  · refine ⟨none,unique?_missing fun other mem same => member ?_,.inr ⟨rfl,defaulted member⟩⟩
    rwa [← List.inj_on_of_nodup_map distinct (kept_of.subset mem) listed same]

theorem exists_mapM_unique? {decoded : List (List Char × Json)} (one : names.length = values.length)
    (two : values.length = defaults.length)
    (each : ∀ name value default, (name,value) ∈ names.zip values → (name,default) ∈ names.zip defaults →
      ∃ read, unique? decoded name = some read ∧ Filled (value,default) read) :
    ∃ reads, names.mapM (unique? decoded) = some reads ∧ List.Forall₂ Filled (values.zip defaults) reads := by
  simp only [mapM_eq_some]
  induction names generalizing values defaults with
  | nil =>
      obtain rfl := List.length_eq_zero_iff.mp one.symm
      exact ⟨[],.nil,.nil⟩
  | cons name names ih =>
      rcases values with _ | ⟨value,values⟩
      · cases one
      rcases defaults with _ | ⟨default,defaults⟩
      · cases two
      obtain ⟨read,found,filled⟩ := each name value default List.mem_cons_self List.mem_cons_self
      obtain ⟨reads,others,rest⟩ := ih (Nat.succ.inj one) (Nat.succ.inj two) fun name value default here there =>
        each name value default (List.mem_cons_of_mem _ here) (List.mem_cons_of_mem _ there)
      exact ⟨read :: reads,.cons found others,.cons filled rest⟩

theorem forall₂_filled_take (count : Nat) (length : values.length = defaults.length)
    (rest : values.drop count = defaults.drop count) : List.Forall₂ Filled (values.zip defaults)
      ((values.take count).map some ++ List.replicate (values.length - (values.take count).length) none) := by
  induction values generalizing defaults count with
  | nil => cases count <;> exact .nil
  | cons value values ih =>
      rcases defaults with _ | ⟨default,defaults⟩
      · cases length
      cases count with
      | zero =>
          obtain ⟨rfl,same⟩ := List.cons.inj rest
          have others := ih 0 (Nat.succ.inj length) same
          exact .cons (.inr ⟨rfl,rfl⟩) (by simpa [List.zip] using others)
      | succ count =>
          have others := ih count (Nat.succ.inj length) rest
          exact .cons (.inl rfl) (by simpa [List.zip] using others)

theorem optional_filled {α : Type} {read? : Json → Option α} {x y : α} {read : Option Json}
    (filled : Filled (value,default) read) (given : read? value = some x) (plain : read? default = some y) : optional read? y read = some x := by
  rcases filled with rfl | ⟨rfl,same⟩
  · exact given
  · exact plain.symm.trans ((congrArg read? same).symm.trans given)

end Json

open Json

namespace Node

def settingNames : List String := fieldNames.tail

def settings (node : Node) : List Json :=
  [ofWord node.parent,ofWord node.containerFlags,ofWord node.layoutFlags,node.margins.toJson,node.padding.toJson,
    ofPair node.fixedSize,ofPair node.minimumSize,ofPair node.maximumSize,ofPair node.floatingPosition,ofWord node.tag,
    node.rect.toJson]

def settingMembers (node : Node) : List (List Char × Json) := (settingNames.map String.toList).zip node.settings

-- The other ways to write a node. The names are what is left when escapes are undone.
inductive Written (node : Node) : Json → Prop where
  | object {members decoded kept extra : List (List Char × Json)} :
      members.mapM (fun member => (text? member.1).map (·,member.2)) = some decoded →
      decoded.Perm (("key".toList,ofWord node.key) :: kept ++ extra) → kept.Sublist node.settingMembers →
      (∀ member ∈ node.settingMembers, member ∉ kept → member ∈ (plain node.key).settingMembers) →
      (∀ member ∈ extra, Ignored fieldNames member) → Written node (.object members)
  | array {count : Nat} : node.settings.drop count = (plain node.key).settings.drop count →
      Written node (.array (ofWord node.key :: node.settings.take count))

variable {node : Node} {json : Json} {reads : List (Option Json)}

theorem survives_plain (key : Word) : ∀ x ∈ (plain key).numbers, x.Survives := by
  have survive : ∀ x ∈ (plain 0).numbers, x.Survives := by decide +kernel
  exact survive

theorem ofJson?_filled (survive : ∀ x ∈ node.numbers, x.Survives)
    (fields : fields? fieldNames json = some (some (ofWord node.key) :: reads))
    (filled : List.Forall₂ Filled (node.settings.zip (plain node.key).settings) reads) : ofJson? json = some node := by
  have defaults := survives_plain node.key
  simp only [numbers,List.forall_mem_append,← pair?_ofPair,← Spacing.ofJson?_toJson,← Rect.ofJson?_toJson] at survive defaults
  obtain ⟨⟨⟨⟨⟨⟨margins,padding⟩,fixedSize⟩,minimumSize⟩,maximumSize⟩,floatingPosition⟩,rect⟩ := survive
  obtain ⟨⟨⟨⟨⟨⟨margins',padding'⟩,fixedSize'⟩,minimumSize'⟩,maximumSize'⟩,floatingPosition'⟩,rect'⟩ := defaults
  rcases filled with _ | ⟨one,_ | ⟨two,_ | ⟨three,_ | ⟨four,_ | ⟨five,_ | ⟨six,_ | ⟨seven,_ | ⟨eight,_ | ⟨nine,_ |
    ⟨ten,_ | ⟨eleven,_ | _⟩⟩⟩⟩⟩⟩⟩⟩⟩⟩⟩
  simp only [ofJson?,fields,Option.bind_eq_bind,Option.bind_some,required,word?_ofWord,
    optional_filled one (word?_ofWord _) (word?_ofWord _),optional_filled two (word?_ofWord _) (word?_ofWord _),
    optional_filled three (word?_ofWord _) (word?_ofWord _),optional_filled four margins margins',
    optional_filled five padding padding',optional_filled six fixedSize fixedSize',
    optional_filled seven minimumSize minimumSize',optional_filled eight maximumSize maximumSize',
    optional_filled nine floatingPosition floatingPosition',optional_filled ten (word?_ofWord _) (word?_ofWord _),
    optional_filled eleven rect rect']
  rfl

theorem Written.ofJson? (written : node.Written json) (survive : ∀ x ∈ node.numbers, x.Survives) :
    Node.ofJson? json = some node := by
  cases written with
  | @array count rest =>
      refine ofJson?_filled survive ?_ (forall₂_filled_take count rfl rest)
      have room : (ofWord node.key :: node.settings.take count).length ≤ fieldNames.length :=
        Nat.succ_le_succ (List.length_take_le' ..)
      have all : fieldNames.length = node.settings.length + 1 := rfl
      rw [fields?,if_pos room,all,List.length_cons,Nat.add_sub_add_right]
      rfl
  | @object members decoded kept extra read order subset dropped ignored =>
      have listed : ∀ {node : Node} {name value}, (name,value) ∈ settingNames.zip node.settings →
          (name.toList,value) ∈ node.settingMembers := by
        intro node name value member
        rw [settingMembers,List.zip_map_left]
        exact List.mem_map_of_mem member
      have names : ((("key".toList,ofWord node.key) :: node.settingMembers).map Prod.fst) = fieldNames.map String.toList := rfl
      have distinct : (fieldNames.map String.toList).Nodup := by decide
      have distinct' : ((plain node.key).settingMembers.map Prod.fst).Nodup := distinct.of_cons
      have kept_of := subset.cons_cons ("key".toList,ofWord node.key)
      have found : ∀ name ∈ fieldNames, unique? decoded name = unique? (("key".toList,ofWord node.key) :: kept) name := by
        intro name named
        rw [unique?_perm order,unique?_append fun member mem => (ignored member mem).1 name named]
      have key : unique? decoded "key" = some (some (ofWord node.key)) := by
        rw [found _ List.mem_cons_self]
        exact unique?_of_mem ((names ▸ distinct).sublist (kept_of.map _)) List.mem_cons_self
      have each : ∀ name value default, (name,value) ∈ settingNames.zip node.settings →
          (name,default) ∈ settingNames.zip (plain node.key).settings →
            ∃ read, unique? decoded name = some read ∧ Filled (value,default) read := by
        intro name value default here there
        rw [found name (List.mem_of_mem_tail (List.of_mem_zip here).1)]
        refine exists_unique? (names ▸ distinct) kept_of (List.mem_cons_of_mem _ (listed here)) fun left => ?_
        have default_of := dropped _ (listed here) fun mem => left (List.mem_cons_of_mem _ mem)
        exact congrArg Prod.snd (List.inj_on_of_nodup_map distinct' default_of (listed there) rfl)
      have length : settingNames.length = node.settings.length := rfl
      have length' : node.settings.length = (plain node.key).settings.length := rfl
      obtain ⟨reads,others,filled⟩ := exists_mapM_unique? length length' each
      refine ofJson?_filled survive ?_ filled
      simp only [fields?,read,Option.bind_some]
      change (_ :: settingNames).mapM (unique? decoded) = _
      rw [List.mapM_cons,key,others]
      rfl

end Node

namespace Snapshot
variable {s : Snapshot} {json : Json} {text : String}

def Written (s : Snapshot) (json : Json) : Prop :=
  ∃ items, List.Forall₂ Node.Written s.nodes items ∧ json = record fieldNames [ofWord s.version,.array items]

theorem Written.ofJson? (written : s.Written json) (survive : s.Survives) : ofJson? json = some s := by
  obtain ⟨items,each,rfl⟩ := written
  have nodes : nodes? (.array items) = some s.nodes := by
    refine mapM_eq_some.mpr (.flip ?_)
    refine ((List.forall₂_and_left _ _).mpr ⟨survive,each⟩).imp ?_
    rintro node item ⟨survive,written⟩
    exact written.ofJson? survive
  rw [Snapshot.ofJson?,fields?_record (by decide) (by decide) rfl]
  simp [required,word?_ofWord,nodes]

-- A snapshot whose numbers survive is read from every text that spells one of the ways to
-- write it.
theorem parse?_written (survive : s.Survives) (written : s.Written json) (spells : Spells json text.toList) :
    parse? text = some s := by
  rw [parse?,parse?_spells spells,Option.bind_some]
  exact written.ofJson? survive

def terse : Snapshot := ⟨1,[{ Node.plain 3 with tag := 7 },{ Node.plain 9 with parent := 3 }]⟩

def terseNodes : List Json :=
  [.object [("tag".toList,ofWord 7),("note".toList,.string "\\ud800".toList),("\\u006bey".toList,ofWord 3),("note".toList,.null)],
    .array [ofWord 9,ofWord 3]]

def terseJson : Json := record fieldNames [ofWord 1,.array terseNodes]

def terseText : List Char := spell ((tokens terseJson).map fun token => ([' ','\n'],token)) ['\t']

theorem parse?_terse : terse.Survives ∧ terse.Written terseJson ∧ Spells terseJson terseText ∧
    parse? (String.ofList terseText) = some terse := by
  have survive : terse.Survives := by decide +kernel
  have nodes : List.Forall₂ Node.Written terse.nodes terseNodes := by
    refine .cons ?_ (.cons (@Node.Written.array _ 1 rfl) .nil)
    refine @Node.Written.object _ _ _ [("tag".toList,ofWord 7)] [("note".toList,.string "\\ud800".toList),("note".toList,.null)]
      rfl (@List.perm_middle _ _ [_,_] [_]) ?_ ?_ ?_
    · exact List.singleton_sublist.mpr (@List.mem_of_getElem? _ _ 9 _ rfl)
    · intro member listed left
      have once : member ∈ (Node.plain 3).settingMembers.set 9 ("tag".toList,ofWord 7) := listed
      rcases List.mem_or_eq_of_mem_set once with plain | same
      · exact plain
      · exact absurd (List.mem_singleton.mpr same) left
    · simp only [List.forall_mem_cons]
      exact ⟨⟨by decide,trivial⟩,⟨by decide,trivial⟩,nofun⟩
  have written : terse.Written terseJson := ⟨_,nodes,rfl⟩
  have spells : Spells terseJson terseText := by
    refine ⟨_,_,?_,by decide +kernel,by simp [Json.blank],by decide,rfl⟩
    rw [List.map_map]
    exact List.map_id _
  refine ⟨survive,written,spells,parse?_written survive written ?_⟩
  rwa [String.toList_ofList]

end Snapshot
end BoxLayout
