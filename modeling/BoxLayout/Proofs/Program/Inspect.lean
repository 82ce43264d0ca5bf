import BoxLayout.Program.Inspect
import BoxLayout.Proofs.Forest.Ways
import BoxLayout.Proofs.Number.Numeral
import BoxLayout.Proofs.Snapshot.Captured

namespace BoxLayout

-- The printed tree tells the attached controls, their parents and their order.

namespace Key

def read (text : List Char) : Key :=
  if text = reserved.text.toList then reserved else ⟨Decimal.ofDigits text.tail⟩

theorem text_of_ne {key : Key} (named : key ≠ reserved) : key.text.toList = '#' :: Decimal.digits key.index := by
  rw [text,if_neg named,countText,String.toList_append,String.toList_ofList,String.toList_ofList]
  rfl

theorem text_reserved : reserved.text.toList = ['#','i','n','v','a','l','i','d'] := by decide

theorem read_text (key : Key) : read key.text.toList = key := by
  by_cases named : key = reserved
  · rw [named,read,if_pos rfl]
  · have other : key.text.toList ≠ reserved.text.toList := by
      rw [text_of_ne named,text_reserved]
      intro same
      have letter : 'i' ∈ Decimal.digits key.index := (List.cons.inj same).2 ▸ List.mem_cons_self
      exact absurd (Decimal.isDigit_of_mem_digits letter) (by decide)
    rw [read,if_neg other,text_of_ne named,List.tail_cons,Decimal.ofDigits_digits]

theorem exists_text (key : Key) : ∃ name, key.text.toList = '#' :: name ∧ ∀ c ∈ name, c.isAlphanum = true := by
  by_cases named : key = reserved
  · rw [named]
    exact ⟨_,text_reserved,List.all_eq_true.mp (by decide)⟩
  · refine ⟨_,text_of_ne named,fun c member => ?_⟩
    rw [Char.isAlphanum,Decimal.isDigit_of_mem_digits member,Bool.or_true]

end Key

-- No label breaks its line.

theorem not_mem_intercalate {c : Char} {between : List Char} {parts : List (List Char)} (apart : c ∉ between)
    (each : ∀ part ∈ parts, c ∉ part) : c ∉ between.intercalate parts := by
  induction parts with
  | nil => exact nofun
  | cons one rest ih =>
      obtain ⟨here,later⟩ := List.forall_mem_cons.mp each
      cases rest with
      | nil => rwa [List.intercalate_singleton]
      | cons two rest =>
          rw [List.intercalate_cons_cons,List.mem_append,List.mem_append]
          rintro ((inOne | inBetween) | inRest)
          · exact here inOne
          · exact apart inBetween
          · exact ih later inRest

theorem Decimal.lineBreak_not_mem (n : Nat) : '\n' ∉ digits n := by
  intro member
  exact absurd (isDigit_of_mem_digits member) (by decide)

theorem Single.lineBreak_not_mem (places : Nat) (x : Single) : '\n' ∉ x.fixed places := by
  have signed : ∀ negative, '\n' ∉ sign negative := by decide
  cases x with
  | nan => exact (by decide : '\n' ∉ ['N','a','N'])
  | infinite negative =>
      rw [fixed,List.mem_append]
      rintro (inSign | inName)
      · exact signed negative inSign
      · exact absurd inName (by decide)
  | finite negative quanta representable =>
      have padded : ∀ count n, '\n' ∉ List.replicate count '0' ++ Decimal.digits n := by
        intro count n member
        rcases List.mem_append.mp member with zero | digit
        · exact absurd (List.eq_of_mem_replicate zero) (by decide)
        · exact Decimal.lineBreak_not_mem n digit
      simp only [fixed,List.mem_append,not_or]
      refine ⟨⟨signed negative,fun member => padded _ _ (List.mem_of_mem_take member)⟩,?_⟩
      split
      · exact nofun
      · rw [List.mem_cons,not_or]
        exact ⟨by decide,fun member => padded _ _ (List.mem_of_mem_drop member)⟩

theorem Rect.lineBreak_not_mem (places : Nat) (r : Rect) : '\n' ∉ (r.report places).toList := by
  simp only [report,String.toList_append,List.mem_append,not_or,Single.toFixed,String.toList_ofList,
    Single.lineBreak_not_mem,not_false_eq_true,and_true]
  decide

theorem Flags.lineBreak_not_mem {names : Names} (plain : ∀ row ∈ names, '\n' ∉ row.1.toList) (word : Word) :
    ∀ name ∈ setNames names word, '\n' ∉ name.toList := by
  intro name member
  obtain ⟨row,kept,rfl⟩ := List.mem_map.mp member
  exact plain row (List.mem_filter.mp kept).1

namespace Inspect
variable {o p : InspectOptions} {f g : Forest} {key : Key}

theorem lineBreak_not_mem_joined {names : List String} (plain : ∀ name ∈ names, '\n' ∉ name.toList) :
    '\n' ∉ (joined names).toList := by
  unfold joined
  split
  · decide
  · rw [String.toList_intercalate]
    exact not_mem_intercalate (by decide) (List.forall_mem_map.mpr plain)

theorem lineBreak_not_mem_flagsNote (b : Box) : '\n' ∉ (flagsNote b).toList := by
  have each : ∀ part ∈ (if b.container.toWord = 0 then [] else [joined b.container.setNames]) ++
      (if b.flags.toWord = 0 then [] else [joined b.flags.setNames]), '\n' ∉ part.toList := by
    intro part member
    rcases List.mem_append.mp member with one | two
    · rw [List.mem_ite_nil_left,List.mem_singleton] at one
      exact one.2 ▸ lineBreak_not_mem_joined (Flags.lineBreak_not_mem (by decide) b.container.toWord)
    · rw [List.mem_ite_nil_left,List.mem_singleton] at two
      exact two.2 ▸ lineBreak_not_mem_joined (Flags.lineBreak_not_mem (by decide) b.flags.toWord)
  unfold flagsNote
  extract_lets container layout
  split
  · decide
  · simp only [String.toList_append,List.mem_append,not_or,String.toList_intercalate]
    exact ⟨⟨by decide,not_mem_intercalate (by decide) (List.forall_mem_map.mpr each)⟩,by decide⟩

theorem exists_label (o : InspectOptions) (f : Forest) (key : Key) :
    ∃ rest, (label o f key).toList = key.text.toList ++ ' ' :: rest ∧ '\n' ∉ rest := by
  have arrangement : '\n' ∉ (f.box key).arrangement.name.toList := by
    cases (f.box key).arrangement <;> decide
  have tag : '\n' ∉ (if f.tag key = 0 then "" else " tag:" ++ wordText (f.tag key)).toList := by
    split
    · decide
    · simp only [wordText,countText,String.toList_append,String.toList_ofList,List.mem_append,not_or]
      exact ⟨by decide,Decimal.lineBreak_not_mem _⟩
  have rect : '\n' ∉ (if o.showLayout then " " ++ (f.box key).rect.report 0 else "").toList := by
    split
    · rw [String.toList_append,List.mem_append,not_or]
      exact ⟨by decide,Rect.lineBreak_not_mem _ _⟩
    · decide
  have flags : '\n' ∉ (if o.showFlags then flagsNote (f.box key) else "").toList := by
    split
    · exact lineBreak_not_mem_flagsNote _
    · decide
  refine ⟨_,?_,List.not_mem_append arrangement (List.not_mem_append tag (List.not_mem_append rect flags))⟩
  simp only [label,String.toList_append,List.append_assoc]
  rfl

def guide (line : List Char) : List Char := line.takeWhile (· ≠ '#')
def name (line : List Char) : List Char := (line.dropWhile (· ≠ '#')).takeWhile (· ≠ ' ')

def depth (line : List Char) : Nat := (guide line).length / 4

def read? (lines : List (List Char)) : Option (Tree Key) :=
  Tree.ofRows? (lines.map fun line => (depth line,Key.read (name line)))

def heading : List Char := ['U','n','a','t','t','a','c','h','e','d',':']

def drawn (text : String) : List (List Char) :=
  (text.toList.splitOn '\n').dropLast.takeWhile fun line => !heading.isPrefixOf line

def line (o : InspectOptions) (f : Forest) (row : List Bool × Key) : List Char :=
  Drawing.lead row.1 ++ (label o f row.2).toList

variable {row : List Bool × Key}

theorem treeLines_eq (o : InspectOptions) (f : Forest) : treeLines o f = ((f.outline .root).placed []).map (line o f) := by
  rw [treeLines,Drawing.lines_eq,Tree.placed_map,List.map_map]
  rfl

theorem line_parts : guide (line o f row) = Drawing.lead row.1 ∧ name (line o f row) = row.2.text.toList := by
  obtain ⟨rest,spelled,_⟩ := exists_label o f row.2
  obtain ⟨digits,text,plain⟩ := row.2.exists_text
  have unmarked : ∀ c ∈ Drawing.lead row.1, decide (c ≠ '#') = true := by
    refine fun c member => decide_eq_true ?_
    rintro rfl
    exact Drawing.not_mem_lead (by decide) member
  have unspaced : ∀ c ∈ row.2.text.toList, decide (c ≠ ' ') = true := by
    rw [text,List.forall_mem_cons]
    refine ⟨by decide,fun c member => decide_eq_true ?_⟩
    rintro rfl
    exact absurd (plain ' ' member) (by decide)
  constructor
  · rw [guide,line,spelled,List.takeWhile_append_of_pos unmarked,text]
    exact List.append_nil _
  · have marked : (row.2.text.toList ++ ' ' :: rest).dropWhile (· ≠ '#') = row.2.text.toList ++ ' ' :: rest := by
      rw [text]
      rfl
    rw [name,line,spelled,List.dropWhile_append_of_pos unmarked,marked,List.takeWhile_append_of_pos unspaced]
    exact List.append_nil _

theorem depth_line : depth (line o f row) = row.1.length := by
  rw [depth,line_parts.1,Drawing.length_lead,Nat.mul_div_cancel_left _ (by decide)]

theorem read?_treeLines (o : InspectOptions) (f : Forest) : read? (treeLines o f) = some (f.outline .root) := by
  have each : (fun line => (depth line,Key.read (name line))) ∘ line o f = Tree.depthOf := by
    funext row
    rw [Function.comp_apply,depth_line,line_parts.2,Key.read_text,Tree.depthOf]
  rw [treeLines_eq,read?,List.map_map,each,Tree.ofRows?_placed]

theorem lineBreak_not_mem_text (key : Key) : '\n' ∉ key.text.toList := by
  obtain ⟨name,text,plain⟩ := key.exists_text
  rw [text,List.mem_cons,not_or]
  exact ⟨by decide,fun member => absurd (plain '\n' member) (by decide)⟩

theorem lineBreak_not_mem_line : '\n' ∉ line o f row := by
  obtain ⟨rest,spelled,plain⟩ := exists_label o f row.2
  rw [line,spelled,List.mem_append,List.mem_append,List.mem_cons]
  rintro (inLead | inText | inBlank | inRest)
  · exact Drawing.not_mem_lead (by decide) inLead
  · exact lineBreak_not_mem_text row.2 inText
  · cases inBlank
  · exact plain inRest

theorem heading_line : heading.isPrefixOf (line o f row) = false := by
  obtain ⟨rest,spelled,_⟩ := exists_label o f row.2
  obtain ⟨digits,text,_⟩ := row.2.exists_text
  rw [line,spelled,text,heading]
  cases drawn : Drawing.lead row.1 with
  | nil => rw [List.nil_append,List.cons_append,List.isPrefixOf_cons_cons,(by decide : ('U' == '#') = false),Bool.false_and]
  | cons c others =>
      have other : ('U' == c) = false := by
        refine beq_false_of_ne ?_
        rintro rfl
        exact Drawing.not_mem_lead (by decide) (drawn ▸ List.mem_cons_self : 'U' ∈ Drawing.lead row.1)
      rw [List.cons_append,List.isPrefixOf_cons_cons,other,Bool.false_and]

theorem splitOn_lines {lines : List (List Char)} (unbroken : ∀ line ∈ lines, '\n' ∉ line) (rest : List Char) :
    (lines.flatMap (· ++ ['\n']) ++ rest).splitOn '\n' = lines ++ rest.splitOn '\n' := by
  induction lines with
  | nil => rfl
  | cons line lines ih =>
      obtain ⟨here,later⟩ := List.forall_mem_cons.mp unbroken
      rw [List.flatMap_cons,List.append_assoc,List.append_assoc,List.singleton_append,
        List.splitOn_append_cons_self_of_not_mem here,ih later,List.cons_append]

theorem drawn_treeReport (o : InspectOptions) (f : Forest) : drawn (treeReport o f) = treeLines o f := by
  have unbroken : ∀ line ∈ treeLines o f, '\n' ∉ line := by
    rw [treeLines_eq,List.forall_mem_map]
    exact fun _ _ => lineBreak_not_mem_line
  have attached : ∀ line ∈ treeLines o f, (!heading.isPrefixOf line) = true := by
    rw [treeLines_eq,List.forall_mem_map]
    intro row _
    rw [heading_line,Bool.not_false]
  have tree : (treeText o f).toList = (treeLines o f).flatMap (· ++ ['\n']) := String.toList_ofList
  unfold drawn treeReport
  rw [String.toList_append,tree,splitOn_lines unbroken]
  split
  · rw [String.toList_empty,List.splitOn_nil,List.dropLast_concat,List.takeWhile_eq_self_iff.mpr attached]
  · let names := [' '].intercalate ((unattached f).map fun key => key.text.toList)
    have note : ("Unattached: " ++ " ".intercalate ((unattached f).map Key.text) ++ "\n").toList =
        (heading ++ ' ' :: names) ++ ['\n'] := by
      simp only [String.toList_append,String.toList_intercalate,List.map_map]
      rfl
    have alone : '\n' ∉ heading ++ ' ' :: names := by
      refine List.not_mem_append (by decide) (List.not_mem_cons_of_ne_of_not_mem (by decide) ?_)
      exact not_mem_intercalate (by decide) (List.forall_mem_map.mpr fun key _ => lineBreak_not_mem_text key)
    rw [note,List.splitOn_append_cons_self_of_not_mem alone,List.splitOn_nil,← List.singleton_append,← List.append_assoc,
      List.dropLast_concat,List.takeWhile_append_of_pos attached]
    exact List.append_nil _

-- What a line tells of a control: the key, how deep it lies, whether siblings follow it,
-- and which of the controls passed on the way down to it have siblings still to come.
structure Shows (f : Forest) (line : List Char) (key : Key) : Prop where
  named : name line = key.text.toList
  placed : ∃ way, f.Way way key ∧ depth line = way.length ∧ ∀ i, (guide line)[i]? = some '│' ↔
    ∃ n passed, i = 4 * n ∧ way.dropLast[n]? = some passed ∧ (f.links passed).nextSibling ≠ none
  last : Drawing.branch true <:+ guide line ↔ key ≠ .root ∧ (f.links key).nextSibling = none
  followed : Drawing.branch false <:+ guide line ↔ (f.links key).nextSibling ≠ none
  lastChild : Drawing.branch true <:+ guide line ↔
    ∃ parent, (f.links key).parent = some parent ∧ (f.links parent).lastChild = some key

variable {way : List Key}

theorem shows_line (linked : f.Linked) (path : f.Way way row.2) (lasts : way.map f.comesLast = row.1) :
    Shows f (line o f row) row.2 := by
  have branches : ∀ last, Drawing.branch last <:+ guide (line o f row) ↔ row.2 ≠ .root ∧ f.comesLast row.2 = last := by
    intro last
    rw [line_parts.1,Drawing.branch_suffix_lead,← lasts,List.getLast?_map,path.getLast? linked]
    by_cases top : row.2 = .root
    · simp [top]
    · simp [top]
  have last : Drawing.branch true <:+ guide (line o f row) ↔ row.2 ≠ .root ∧ (f.links row.2).nextSibling = none := by
    rw [branches,Forest.comesLast_iff]
  refine ⟨line_parts.2,⟨way,path,?_,fun i => ?_⟩,last,?_,last.trans (linked.ends_family_iff path.attached)⟩
  · rw [depth_line,← lasts,List.length_map]
  · rw [line_parts.1,Drawing.bar_lead,← lasts]
    simp only [← List.map_dropLast,List.getElem?_map,Option.map_eq_some_iff,Forest.comesLast_false_iff,exists_and_left]
  · rw [branches,Forest.comesLast_false_iff,and_iff_right_iff_imp]
    intro followed top
    exact followed (top ▸ (linked.free_alone .root linked.root_free).2)

-- The printed lines are those of the attached controls in preorder, and tell all of the tree: it is
-- read back from them, and so no other tree is printed like this, whatever else is shown.
theorem tree_printed (path : f.Reachable) (format : o.format = "tree") :
    ∃ text, text? o f = some text ∧
      ((f.descendants .root).Nodup ∧ (∀ key, key ∈ f.descendants .root ↔ f.Attached key) ∧
        f.Outlines (f.outline .root) ∧ f.descendants .root = (f.outline .root).preorder) ∧
      List.Forall₂ (Shows f) (drawn text) (f.descendants .root) ∧
      read? (drawn text) = some (f.outline .root) ∧
      ∀ p g other, g.Reachable → p.format = "tree" → text? p g = some other → drawn other = drawn text →
        f.SameTree g := by
  have linked := path.linked
  have outlines := Forest.outlines_root linked
  have walked := Forest.descendants_root linked
  refine ⟨treeReport o f,if_pos format,⟨Forest.nodup_descendants_root linked,fun _ => Forest.mem_descendants_root linked,
    outlines,walked⟩,?_,?_,?_⟩
  · rw [drawn_treeReport,treeLines_eq,walked,← Tree.placed_values [],List.forall₂_map_left_iff,List.forall₂_map_right_iff,
      List.forall₂_same]
    have start : f.Way [] (f.outline .root).value := by
      rw [Forest.value_outline]
      exact .root
    intro row member
    obtain ⟨way,reached,lasts⟩ := outlines.ways linked start row member
    exact shows_line linked reached lasts
  · rw [drawn_treeReport,read?_treeLines]
  · intro p g other path' format' printed alike
    obtain rfl : treeReport p g = other := Option.some.inj ((if_pos format').symm.trans printed)
    rw [drawn_treeReport,drawn_treeReport] at alike
    refine Forest.sameTree_of_outline linked path'.linked (Option.some.inj ?_)
    rw [← read?_treeLines p g,alike,read?_treeLines]

def branching : List Command :=
  [.createChild .root,.createChild .root,.createChild ⟨1⟩,.create,.setContainerFlags ⟨1⟩ (.ofWord 1)]

def plain : InspectOptions := ⟨"tree.json","tree",none,false,false,true⟩

theorem tree_printed_branching :
    (Forest.after branching).Reachable ∧ plain.format = "tree" ∧
      ∃ text other, text? plain (Forest.after branching) = some text ∧
      drawn text = ["#0 Free tag:1","├── #1 Row","│   └── #3 Free","└── #2 Free"].map String.toList ∧
      List.Forall₂ (Shows (Forest.after branching)) (drawn text) [⟨0⟩,⟨1⟩,⟨3⟩,⟨2⟩] ∧
      text? plain (Forest.after (branching ++ [.create])) = some other ∧ other ≠ text ∧
      (Forest.after branching).SameTree (Forest.after (branching ++ [.create])) := by
  have path := Forest.reachable_after branching
  have path' := Forest.reachable_after (branching ++ [.create])
  have report : text? plain (Forest.after branching) =
      some "#0 Free tag:1\n├── #1 Row\n│   └── #3 Free\n└── #2 Free\nUnattached: #4\n" := by decide +kernel
  have other : text? plain (Forest.after (branching ++ [.create])) =
      some "#0 Free tag:1\n├── #1 Row\n│   └── #3 Free\n└── #2 Free\nUnattached: #4 #5\n" := by decide +kernel
  have walked : (Forest.after branching).descendants .root = [⟨0⟩,⟨1⟩,⟨3⟩,⟨2⟩] := by decide +kernel
  obtain ⟨text,printed,_,shows,_,alike⟩ := tree_printed path (rfl : plain.format = "tree")
  obtain rfl := Option.some.inj (report.symm.trans printed)
  refine ⟨path,rfl,_,_,printed,by decide +kernel,walked ▸ shows,other,by decide,?_⟩
  exact alike plain _ _ path' rfl other (by decide +kernel)

end Inspect
end BoxLayout
