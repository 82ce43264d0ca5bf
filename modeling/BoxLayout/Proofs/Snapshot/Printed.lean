import BoxLayout.Proofs.Json.Record

namespace BoxLayout

-- Snapshots as text and back: always some JSON, and the same snapshot exactly when
-- each of its numbers comes back as it was.

namespace Single

def reread? (x : Single) : Option Single :=
  x.numeral?.bind fun spelling => (Numeral.read? spelling).bind Numeral.single?

def Survives (x : Single) : Prop := x.reread? = some x

instance (x : Single) : Decidable x.Survives := inferInstanceAs (Decidable (_ = _))

end Single

namespace Json

theorem spelled_ofSingle (x : Single) : Spelled (ofSingle x) := by
  unfold ofSingle
  cases spelled : x.numeral? with
  | none => exact .null
  | some spelling =>
      obtain ⟨numeral,read⟩ := Single.read?_numeral? spelled
      exact .number read

theorem single?_ofSingle (x : Single) : single? (ofSingle x) = x.reread? := by
  unfold ofSingle Single.reread?
  cases x.numeral? <;> rfl

theorem spelled_record {names : List String} {values : List Json} (plain : ∀ name ∈ names, Plain name.toList)
    (each : ∀ value ∈ values, Spelled value) : Spelled (record names values) := by
  refine .object (fun member listed => ?_) fun member listed => each _ (List.of_mem_zip listed).2
  obtain ⟨name,named,same⟩ := List.mem_map.mp (List.of_mem_zip listed).1
  rw [← same]
  exact plain name named

theorem spelled_ofPair (pair : PerAxis Single) : Spelled (ofPair pair) := by
  refine .array ?_
  simp [spelled_ofSingle]

theorem pair?_ofPair_eq (pair : PerAxis Single) :
    pair? (ofPair pair) = pair.x.reread?.bind fun x => pair.y.reread?.bind fun y => some ⟨x,y⟩ := by
  simp [ofPair,pair?,single?_ofSingle]

theorem pair?_ofPair (pair : PerAxis Single) :
    pair? (ofPair pair) = some pair ↔ ∀ x ∈ pair.toList, x.Survives := by
  simp only [pair?_ofPair_eq,Option.bind_eq_some_iff,Option.some.injEq,PerAxis.toList,List.mem_cons,List.not_mem_nil,or_false,
    forall_eq_or_imp,forall_eq]
  constructor
  · rintro ⟨x,first,y,second,rfl⟩
    exact ⟨first,second⟩
  · rintro ⟨first,second⟩
    exact ⟨_,first,_,second,rfl⟩

end Json

open Json

namespace Spacing
variable (s : Spacing)

theorem spelled_toJson : Spelled s.toJson := by
  refine spelled_record (by decide) fun value listed => ?_
  obtain ⟨x,_,rfl⟩ := List.mem_map.mp listed
  exact spelled_ofSingle x

theorem ofJson?_toJson_eq : ofJson? s.toJson = s.left.reread?.bind fun left => s.top.reread?.bind fun top =>
    s.right.reread?.bind fun right => s.bottom.reread?.bind fun bottom => some ⟨left,top,right,bottom⟩ := by
  have fields : fields? fieldNames s.toJson = some ((s.sides.map ofSingle).map some) :=
    fields?_record (by decide) (by decide) rfl
  simp [ofJson?,fields,sides,required,single?_ofSingle]

theorem ofJson?_toJson : ofJson? s.toJson = some s ↔ ∀ x ∈ s.sides, x.Survives := by
  simp only [ofJson?_toJson_eq,Option.bind_eq_some_iff,Option.some.injEq,sides,List.mem_cons,List.not_mem_nil,or_false,
    forall_eq_or_imp,forall_eq]
  constructor
  · rintro ⟨l,left,t,top,r,right,b,bottom,rfl⟩
    exact ⟨left,top,right,bottom⟩
  · rintro ⟨left,top,right,bottom⟩
    exact ⟨_,left,_,top,_,right,_,bottom,rfl⟩

end Spacing

namespace Rect
variable (r : Rect)

theorem spelled_toJson : Spelled r.toJson := by
  refine spelled_record (by decide) ?_
  simp [spelled_ofPair]

theorem ofJson?_toJson_eq : ofJson? r.toJson = (pair? (ofPair r.position)).bind fun position =>
    (pair? (ofPair r.size)).bind fun size => some ⟨position,size⟩ := by
  have fields : fields? fieldNames r.toJson = some [some (ofPair r.position),some (ofPair r.size)] :=
    fields?_record (by decide) (by decide) rfl
  simp [ofJson?,fields,required]

theorem ofJson?_toJson : ofJson? r.toJson = some r ↔ ∀ x ∈ r.numbers, x.Survives := by
  simp only [ofJson?_toJson_eq,Option.bind_eq_some_iff,Option.some.injEq,numbers,List.forall_mem_append,← pair?_ofPair]
  constructor
  · rintro ⟨p,position,e,size,rfl⟩
    exact ⟨position,size⟩
  · rintro ⟨position,size⟩
    exact ⟨_,position,_,size,rfl⟩

end Rect

def Node.numbers (node : Node) : List Single :=
  node.margins.sides ++ node.padding.sides ++ node.fixedSize.toList ++ node.minimumSize.toList ++
    node.maximumSize.toList ++ node.floatingPosition.toList ++ node.rect.numbers

namespace Node
variable (node : Node)

theorem spelled_toJson : Spelled node.toJson := by
  refine spelled_record (by decide) ?_
  simp [spelled_ofWord,spelled_ofPair,Spacing.spelled_toJson,Rect.spelled_toJson]

-- Words always come back, so what is left is read from the seven fields with numbers.
theorem ofJson?_toJson_eq : ofJson? node.toJson = (Spacing.ofJson? node.margins.toJson).bind fun margins =>
    (Spacing.ofJson? node.padding.toJson).bind fun padding => (pair? (ofPair node.fixedSize)).bind fun fixedSize =>
    (pair? (ofPair node.minimumSize)).bind fun minimumSize => (pair? (ofPair node.maximumSize)).bind fun maximumSize =>
    (pair? (ofPair node.floatingPosition)).bind fun floatingPosition => (Rect.ofJson? node.rect.toJson).bind fun rect =>
    some { node with
      margins, padding, fixedSize, minimumSize, maximumSize, floatingPosition, rect } := by
  have fields : fields? fieldNames node.toJson = some [some (ofWord node.key),some (ofWord node.parent),
      some (ofWord node.containerFlags),some (ofWord node.layoutFlags),some node.margins.toJson,some node.padding.toJson,
      some (ofPair node.fixedSize),some (ofPair node.minimumSize),some (ofPair node.maximumSize),
      some (ofPair node.floatingPosition),some (ofWord node.tag),some node.rect.toJson] :=
    fields?_record (by decide) (by decide) rfl
  simp [ofJson?,fields,required,Json.optional,plain,word?_ofWord]

theorem ofJson?_toJson : ofJson? node.toJson = some node ↔ ∀ x ∈ node.numbers, x.Survives := by
  simp only [ofJson?_toJson_eq,Option.bind_eq_some_iff,Option.some.injEq,numbers,List.forall_mem_append,← pair?_ofPair,
    ← Spacing.ofJson?_toJson,← Rect.ofJson?_toJson]
  constructor
  · rintro ⟨m,margins,p,padding,f,fixedSize,least,minimumSize,most,maximumSize,q,floatingPosition,r,rect,same⟩
    cases node
    cases same
    exact ⟨⟨⟨⟨⟨⟨margins,padding⟩,fixedSize⟩,minimumSize⟩,maximumSize⟩,floatingPosition⟩,rect⟩
  · rintro ⟨⟨⟨⟨⟨⟨margins,padding⟩,fixedSize⟩,minimumSize⟩,maximumSize⟩,floatingPosition⟩,rect⟩
    exact ⟨_,margins,_,padding,_,fixedSize,_,minimumSize,_,maximumSize,_,floatingPosition,_,rect,rfl⟩

end Node

namespace Snapshot
variable (s : Snapshot)

def Survives (s : Snapshot) : Prop := ∀ node ∈ s.nodes, ∀ x ∈ node.numbers, x.Survives

instance (s : Snapshot) : Decidable s.Survives := inferInstanceAs (Decidable (∀ node ∈ s.nodes, _))

theorem spelled_toJson : Spelled s.toJson := by
  refine spelled_record (by decide) ?_
  simp only [List.mem_cons,List.not_mem_nil,or_false,forall_eq_or_imp,forall_eq]
  refine ⟨spelled_ofWord _,.array fun item listed => ?_⟩
  obtain ⟨node,_,rfl⟩ := List.mem_map.mp listed
  exact node.spelled_toJson

theorem nodes?_toJson : nodes? (.array (s.nodes.map Node.toJson)) = some s.nodes ↔ s.Survives := by
  simp only [nodes?,mapM_eq_some,List.forall₂_map_left_iff,List.forall₂_same,Node.ofJson?_toJson,Survives]

theorem ofJson?_toJson_eq :
    ofJson? s.toJson = (nodes? (.array (s.nodes.map Node.toJson))).bind fun nodes => some { s with nodes } := by
  have fields : fields? fieldNames s.toJson = some [some (ofWord s.version),some (.array (s.nodes.map Node.toJson))] :=
    fields?_record (by decide) (by decide) rfl
  simp [ofJson?,fields,required,word?_ofWord]

theorem ofJson?_toJson : ofJson? s.toJson = some s ↔ s.Survives := by
  simp only [ofJson?_toJson_eq,Option.bind_eq_some_iff,Option.some.injEq,← nodes?_toJson]
  constructor
  · rintro ⟨nodes,back,same⟩
    cases s
    cases same
    exact back
  · intro back
    exact ⟨_,back,rfl⟩

theorem parse?_print_eq : parse? s.print = ofJson? s.toJson := by
  unfold parse? print
  rw [String.toList_ofList,parse?_pretty s.spelled_toJson,Option.bind_some]

theorem parse?_print (survive : s.Survives) : parse? s.print = some s :=
  s.parse?_print_eq.trans (s.ofJson?_toJson.mpr survive)

-- The text of a snapshot is read back as that snapshot exactly when all its numbers
-- survive: whatever the version, the keys, the links, the words and the tags.
theorem parse?_print_iff : parse? s.print = some s ↔ s.Survives := by
  rw [parse?_print_eq,ofJson?_toJson]

def scrawled : Snapshot where
  version := 4294967295
  nodes :=
    [{ Node.plain 7 with
        parent := 7
        containerFlags := 4294967295
        layoutFlags := 3735928559
        margins := ⟨.ofRatio false 1 10,.zero true,-3,.ofRatio true 1 3⟩
        fixedSize := ⟨.ofQuanta false 1 1,.ofQuanta false ((2 ^ 24 - 1) * 2 ^ 253) 1⟩
        tag := 12 },
      { Node.plain 4294967295 with
        parent := 9
        rect := ⟨⟨100000000000000000000,.ofRatio true 1 10000000⟩,⟨16777216,12⟩⟩ },
      Node.plain 7]

theorem parse?_print_scrawled : scrawled.Survives ∧ parse? scrawled.print = some scrawled := by
  have survive : scrawled.Survives := by decide +kernel
  exact ⟨survive,scrawled.parse?_print_iff.mpr survive⟩

end Snapshot

end BoxLayout
