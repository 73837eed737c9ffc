import ClassDiagram.Proofs.Extraction.Items
import ClassDiagram.Proofs.Extraction.Opening
import ClassDiagram.Proofs.Registry

/-!
# Reading undoes printing

Reading the text of a `ClassOutline` registers the class that was printed, with everything it says
and nothing else (`Registry.read_render`).
-/

namespace ClassDiagram

open Text Source Cursor

theorem filterMap_mapIdx {α β γ : Type} (g : β → Option γ) {f : Nat → α → β} {h : Nat → α → γ}
    (hg : ∀ i a, g (f i a) = some (h i a)) (as : List α) :
    (as.mapIdx f).filterMap g = as.mapIdx h := by
  induction as generalizing f h with
  | nil => rfl
  | cons a as ih =>
    rw [List.mapIdx_cons, List.mapIdx_cons, List.filterMap_cons_some (hg 0 a),
      ih fun i b => hg (i + 1) b]

namespace ClassOutline

variable (c : ClassOutline)

/-! ## Signatures -/

/-- The lines of the fields. -/
def fieldLines : List Char := (c.fields.mapIdx Item.field).flatMap fun item => item.line.chars

/-- The lines of the constructor's body. -/
def statementLines : List Char :=
  (c.constructed.mapIdx Item.statement).flatMap fun item => item.line.chars

/-- The lines behind the constructor's body. -/
def endLines : List Char :=
  ([.close 4, .method c.parameters, .close 4, .close 0] : List Item).flatMap
    (fun item => item.line.chars) ++ ['\n']

theorem lines_eq : c.lines = c.fieldLines ++ ((Item.constructor c.name).line.chars ++
    (c.statementLines ++ c.endLines)) := by
  simp [lines, items, fieldLines, statementLines, endLines]

/-- The text in front of the constructor's line. -/
def front : List Char := "public ".toList ++ c.opening ++ '{' :: c.fieldLines

/-- The signature of the constructor, with its place in the text. -/
def constructorSignature : Signature where
  name := c.name.text
  modifiers := "public".toList
  returnType? := none
  parameters := []
  start := between (c.front ++ (Item.constructor c.name).line.gap)
    ((Item.constructor c.name).body ++ '{' :: (c.statementLines ++ c.endLines))
  body? := some (between
    (c.front ++ (Item.constructor c.name).line.gap ++ (Item.constructor c.name).body)
    ('{' :: (c.statementLines ++ c.endLines)))

theorem inline_opening : ∀ d ∈ c.opening, Member.isMark d = false ∧ d ≠ '\n' := by
  intro d hd
  rcases c.mem_opening hd with h | rfl
  · exact inline_of_isNameChar h
  · decide

/-- The scan for signatures finds the constructor and the method. -/
theorem scan_signatures : ∃ start body?,
    (ofText c.render.toList).scan Signature.at? c.declaration.start.offset =
      [c.constructorSignature, ⟨"work", "public".toList, some "void",
        (parameterList c.parameters).toList, start, body?⟩] := by
  have hoffset : c.declaration.start.offset = byteSize ([] ++ "public ".toList) := rfl
  have hbarren : Barren (Member.at? Signature.modifierWords Signature.tail?) "public ".toList
      c.opening ('{' :: c.lines) := Member.barren_inline _ (by decide) c.inline_opening
  have hlines := Member.scan_lines Item.line (fun u item w => item.signature? u w) ['\n']
    Signature.isName_modifierWords Signature.tail?_of_stops Signature.ofReading c.items
    (fun item _ u w => signature_item item u w) (by simp; decide) ("public ".toList ++ c.opening)
    (by decide : Member.isMark '{' = true)
  rw [toList_render, ofText_eq, hoffset, scan_skip, List.nil_append, Signature.at?_eq,
    scan_barren (hbarren.map _), lines, hlines]
  have hfields : ∀ item ∈ c.fields.mapIdx Item.field, ∀ u w, item.signature? u w = none := by
    intro item hitem u w
    obtain ⟨i, _, rfl⟩ := List.mem_mapIdx.1 hitem
    rfl
  have hstatements : ∀ item ∈ c.constructed.mapIdx Item.statement, ∀ u w,
      item.signature? u w = none := by
    intro item hitem u w
    obtain ⟨j, _, rfl⟩ := List.mem_mapIdx.1 hitem
    rfl
  have hfront : "public ".toList ++ c.opening ++ ['{'] ++ c.fieldLines = c.front := by
    unfold front
    simp
  have hrest : (c.constructed.mapIdx Item.statement ++
      ([.close 4, .method c.parameters, .close 4, .close 0] : List Item)).flatMap
        (fun item => item.line.chars) ++ ['\n'] = c.statementLines ++ c.endLines := by
    simp [statementLines, endLines]
  rw [items, Member.found_append, Member.found_of_none _ _ _ hfields, List.nil_append,
    ← fieldLines, hfront, Member.found, hrest, Member.found_append,
    Member.found_of_none _ _ _ hstatements, List.nil_append]
  exact ⟨_, _, rfl⟩

/-- Both are members of the class. -/
theorem signatures_render : ∃ start body?,
    Signature.findAll c.render.toList c.declaration.start.offset c.name.text =
      [c.constructorSignature, ⟨"work", "public".toList, some "void",
        (parameterList c.parameters).toList, start, body?⟩] := by
  obtain ⟨start, body?, hscan⟩ := c.scan_signatures
  refine ⟨start, body?, ?_⟩
  have hwork : isReserved "work" = false := by decide
  have hvoid : isReserved "void" = false := by decide
  simp [Signature.findAll, hscan, Signature.isMember, constructorSignature, c.name.not_isReserved,
    hwork, hvoid]

/-! ## Fields -/

theorem fieldArea_eq (signatures : List Signature) :
    Extract.fieldArea c.declaration (c.constructorSignature :: signatures) =
      c.opening ++ '{' :: (c.fieldLines ++ (Item.constructor c.name).line.gap) := by
  have hstart : c.declaration.start = between "public ".toList
      ((c.opening ++ '{' :: (c.fieldLines ++ (Item.constructor c.name).line.gap)) ++
        ((Item.constructor c.name).body ++ '{' :: (c.statementLines ++ c.endLines))) := by
    have hmark : (Item.constructor c.name).line.chars = (Item.constructor c.name).line.gap ++
        (Item.constructor c.name).body ++ ['{'] := rfl
    simp [declaration, lines_eq, hmark]
  have hstop : c.constructorSignature.start = between ("public ".toList ++
      (c.opening ++ '{' :: (c.fieldLines ++ (Item.constructor c.name).line.gap)))
      ((Item.constructor c.name).body ++ '{' :: (c.statementLines ++ c.endLines)) := by
    unfold constructorSignature front
    simp
  rw [Extract.fieldArea, hstart, hstop, upTo_between]

/-- The first line is no field. -/
theorem field_opening (w : List Char) :
    Member.from? Field.modifiers Field.rest? (between [] (c.opening ++ '{' :: w)) = none := by
  have hclass : IsName "class".toList := by decide
  have hmod : Member.modifier? Field.modifiers (between [] ("class".toList ++ ' ' ::
      (c.name.text.toList ++ (c.parentClause.toList ++ ' ' :: '{' :: w)))) = none := by
    rw [Member.modifier?_word Field.isName_modifiers [] hclass (stops_cons.2 (by decide)),
      if_neg (by decide)]
  have hafter : ∀ d, d ≠ 'e' → d ≠ '{' →
      Stops (· == d) ((c.parentClause.toList ++ ' ' :: '{' :: w).dropWhile isBlank) := by
    intro d he hbrace
    have hblank : isBlank ' ' = true := by decide
    have hletter : isBlank 'e' = false := by decide
    have hopen : isBlank '{' = false := by decide
    unfold parentClause
    split
    · simpa [hblank, hletter] using he.symm
    · simpa [hblank, hopen] using hbrace.symm
  rw [opening_append,
    Member.from?_plain [] (hclass.stops_blank _) (hclass.stops_eq (by decide) _) hmod,
    Field.rest?_eq_none [] hclass c.name.isName (c.stops_parentClause _)
      (hafter '=' (by decide) (by decide)) (hafter ';' (by decide) (by decide)), Option.map_none]

/-- The parts of a field that its line gives. -/
def fieldParts : Item → Option (List Char × List Char × List Char)
  | .field i t => some ("private ".toList, t.text.toList, (numbered "field" i).toList)
  | _ => none

theorem scan_fields :
    (ofText (c.opening ++ '{' :: (c.fieldLines ++ (Item.constructor c.name).line.gap))).scan
        Field.at? 0 =
      c.fields.mapIdx fun i t =>
        ("private ".toList, t.text.toList, (numbered "field" i).toList) := by
  have hbarren : Barren (Member.at? Field.modifiers Field.rest?) [] c.opening
      ('{' :: (c.fieldLines ++ (Item.constructor c.name).line.gap)) :=
    Member.barren_line (c.field_opening _) c.inline_opening
  have hread : ∀ item ∈ c.fields.mapIdx Item.field, ∀ u w,
      (Member.from? Field.modifiers Field.rest?
        (between (u ++ item.line.gap) (item.line.body ++ item.line.mark :: w))).map
          Field.ofReading =
      (fieldParts item).map fun parts =>
        (parts, byteSize (u ++ item.line.gap ++ item.line.body)) := by
    intro item hitem u w
    obtain ⟨i, hi, rfl⟩ := List.mem_mapIdx.1 hitem
    exact field_item i _ _ w
  have hlines := Member.scan_lines Item.line (fun _ item _ => fieldParts item) _
    Field.isName_modifiers Field.rest?_of_stops Field.ofReading (c.fields.mapIdx Item.field) hread
    (Member.Line.isBlank_of_mem_gap (l := (Item.constructor c.name).line)) c.opening
    (by decide : Member.isMark '{' = true)
  rw [ofText_eq, Field.at?_eq, scan_barren (hbarren.map _), List.nil_append, fieldLines, hlines,
    Member.found_const]
  exact filterMap_mapIdx fieldParts (fun i t => rfl) c.fields

theorem isReserved_numbered (i : Nat) : isReserved (numbered "field" i) = false := by
  have hfield : ∀ word ∈ reservedWords, "field".toList.isPrefixOf word.toList = false := by decide
  have hprefix : "field".toList.isPrefixOf (numbered "field" i).toList = true := by
    rw [toList_numbered]
    exact List.isPrefixOf_iff_prefix.2 (List.prefix_append _ _)
  have hfree : numbered "field" i ∉ reservedWords := fun h => by
    rw [hfield _ h] at hprefix
    cases hprefix
  simpa [isReserved] using hfree

theorem isReserved_fieldType (t : FieldType) : isReserved t.text = false := by
  unfold FieldType.text
  split
  · have hword : ∀ word ∈ reservedWords, '<' ∉ word.toList := by decide
    have hfree : "List<" ++ t.element.text ++ ">" ∉ reservedWords := fun h =>
      hword _ h (by simp)
    simpa [isReserved] using hfree
  · exact t.element.not_isReserved

theorem normalizeType_fieldType (t : FieldType) : normalizeType t.text.toList = t.text.toList := by
  refine normalizeType_eq_self fun d hd => ?_
  rcases mem_fieldType hd with h | rfl | rfl
  · exact ⟨isBlank_of_isNameChar h, ne_of_isNameChar h (by decide), ne_of_isNameChar h (by decide)⟩
  · decide
  · decide

/-- The fields come back in order. -/
theorem attributes_render (hname : ∀ i < c.fields.length, c.name.text ≠ numbered "field" i)
    (signatures : List Signature) :
    Extract.attributes c.declaration (c.constructorSignature :: signatures) =
      c.fields.mapIdx fun i t => Attribute.declare (numbered "field" i) t.text .owner := by
  have hprivate : Visibility.ofModifiers "private ".toList = .owner := by decide
  have hall : Field.findAll (c.opening ++ '{' :: (c.fieldLines ++
      (Item.constructor c.name).line.gap)) =
      c.fields.mapIdx fun i t => ⟨numbered "field" i, t.text, .owner⟩ := by
    unfold Field.findAll
    rw [scan_fields]
    refine filterMap_mapIdx _ (fun i t => ?_) c.fields
    simp only [String.ofList_toList, isReserved_fieldType, isReserved_numbered,
      normalizeType_fieldType, hprivate]
    rfl
  have hkeep : ∀ f ∈ c.fields.mapIdx (fun i t => (⟨numbered "field" i, t.text, .owner⟩ : Field)),
      (f.name != c.declaration.name) = true := by
    intro f hf
    obtain ⟨i, hi, rfl⟩ := List.mem_mapIdx.1 hf
    exact bne_iff_ne.2 (hname i hi).symm
  rw [Extract.attributes, fieldArea_eq, hall, List.filter_eq_self.2 hkeep,
    ← List.filterMap_eq_map]
  exact filterMap_mapIdx (some ∘ _) (fun _ _ => rfl) c.fields

end ClassOutline

/-! ## Constructed types -/

theorem blockFrom_plain {v : List Char} (w : List Char)
    (hv : ∀ d ∈ v, d ≠ '{' ∧ d ≠ '}' ∧ d ≠ '"' ∧ d ≠ '\'') :
    blockFrom 1 none (v ++ '}' :: w) = v := by
  induction v with
  | nil => simp [blockFrom]
  | cons d v ih =>
    have hd := hv d List.mem_cons_self
    simp [blockFrom, hd, ih fun e he => hv e (List.mem_cons_of_mem d he)]

theorem instantiation_blanks {gap : List Char} (u w : List Char)
    (hgap : ∀ d ∈ gap, isBlank d = true) : Barren Instantiation.at? u gap w := by
  refine barren_of_forall fun d hd u w => Instantiation.at?_of_stops u (stops_cons.2 ?_)
  have hblank := hgap d hd
  have hdot : d ≠ '.' := by
    rintro rfl
    exact absurd hblank (by decide)
  have hbracket : d ≠ ']' := by
    rintro rfl
    exact absurd hblank (by decide)
  simp [Instantiation.isTargetChar, isPathChar, isNameChar_of_isBlank hblank, hdot, hbracket]

/-- A line of the constructor's body gives the type that it constructs. -/
theorem instantiation_statement (j : Nat) (n : Identifier) (u w : List Char) :
    scan Instantiation.at? 0 (between u ((Item.statement j n).line.chars ++ w)) =
      n.text.toList ::
        scan Instantiation.at? 0 (between (u ++ (Item.statement j n).line.chars) w) := by
  have hlocal : IsName (numbered "local" j).toList := isName_numbered (by decide) j
  have hgap := (Item.statement j n).line.isBlank_of_mem_gap
  generalize hv : (numbered "local" j).toList ++
    (" = new ".toList ++ (n.text.toList ++ ['('])) = v
  have hchars : (Item.statement j n).line.chars =
      (Item.statement j n).line.gap ++ (v ++ [')', ';']) := by
    rw [← hv]
    have hline : (Item.statement j n).line.chars = (Item.statement j n).line.gap ++
        (Item.statement j n).body ++ [';'] := rfl
    rw [hline]
    unfold Item.body
    simp
  have hread : ∀ u, Instantiation.at? (between u (v ++ ([')', ';'] ++ w))) =
      some (n.text.toList, byteSize (u ++ v)) := fun u => by
    have hbetween := Instantiation.at?_between u (')' :: ';' :: w) hlocal n.isName
    rw [← hv]
    simpa using hbetween
  have hnonempty : v ≠ [] := by
    rw [← hv]
    simp
  have hclose : ∀ u, Barren Instantiation.at? u [')', ';'] w := fun u =>
    ⟨Instantiation.at?_of_stops u (stops_cons.2 (by decide)),
      Instantiation.at?_of_stops _ (stops_cons.2 (by decide)), trivial⟩
  rw [hchars, List.append_assoc, List.append_assoc,
    scan_barren (instantiation_blanks u _ hgap), scan_success hnonempty (hread _),
    scan_barren (hclose _)]
  simp

theorem scan_statements (index : Nat → Nat) (ns : List Identifier) (u : List Char)
    {tail : List Char} (htail : ∀ d ∈ tail, isBlank d = true) :
    scan Instantiation.at? 0 (between u
      ((ns.mapIdx fun j n => Item.statement (index j) n).flatMap (fun item => item.line.chars) ++
        tail)) = ns.map fun n => n.text.toList := by
  induction ns generalizing index u with
  | nil =>
    have hscan := scan_barren (instantiation_blanks u [] htail)
    rw [List.append_nil] at hscan
    simpa [scan_nil] using hscan
  | cons n ns ih =>
    rw [List.mapIdx_cons, List.flatMap_cons, List.append_assoc, instantiation_statement,
      ih fun j => index (j + 1), List.map_cons]

/-- Characters that neither open or close a block nor start a literal. -/
theorem plain_of_class {d : Char} (h : isBlank d = true ∨ isNameChar d = true ∨
    d ∈ [' ', '<', '>', '(', ')', '=', ',', ';']) : d ≠ '{' ∧ d ≠ '}' ∧ d ≠ '"' ∧ d ≠ '\'' := by
  refine ⟨?_, ?_, ?_, ?_⟩ <;>
    · rintro rfl
      exact absurd h (by decide)

namespace ClassOutline

variable (c : ClassOutline)

theorem plain_statementLines :
    ∀ d ∈ c.statementLines, d ≠ '{' ∧ d ≠ '}' ∧ d ≠ '"' ∧ d ≠ '\'' := by
  intro d hd
  obtain ⟨item, hitem, hd⟩ := List.mem_flatMap.1 hd
  obtain ⟨j, hj, rfl⟩ := List.mem_mapIdx.1 hitem
  simp only [Member.Line.chars, List.mem_append, List.mem_singleton] at hd
  apply plain_of_class
  rcases hd with (hd | hd) | hd
  · exact .inl (Member.Line.isBlank_of_mem_gap _ hd)
  · have hd : d ∈ (Item.statement j (c.constructed[j])).body := hd
    rcases Item.mem_body hd with h | h
    · exact .inr (.inl h)
    · exact .inr (.inr (List.mem_append_left [';'] h))
  · rw [hd]
    exact .inr (.inr (by decide : ';' ∈ [' ', '<', '>', '(', ')', '=', ',', ';']))

/-- The constructor constructs what its body says, containers apart. -/
theorem constructedIn_constructor (settings : Settings) :
    Extract.constructedIn settings c.name.text c.constructorSignature =
      (c.constructed.map Identifier.text).filter fun type => !settings.isContainer type := by
  have hend : c.endLines = (Item.close 4).line.gap ++
      '}' :: (([.method c.parameters, .close 4, .close 0] : List Item).flatMap
        (fun item => item.line.chars) ++ ['\n']) := by
    have hclose : (Item.close 4).line.chars = (Item.close 4).line.gap ++ ['}'] := rfl
    simp [endLines, hclose]
  have hplain : ∀ d ∈ c.statementLines ++ (Item.close 4).line.gap,
      d ≠ '{' ∧ d ≠ '}' ∧ d ≠ '"' ∧ d ≠ '\'' := by
    refine List.forall_mem_append.2 ⟨c.plain_statementLines, fun d hd => ?_⟩
    exact plain_of_class (.inl (Member.Line.isBlank_of_mem_gap d hd))
  have hblock : c.constructorSignature.body?.bind block? =
      some (c.statementLines ++ (Item.close 4).line.gap) := by
    have hbrace : c.constructorSignature.body?.bind block? =
        some (blockFrom 1 none (c.statementLines ++ c.endLines)) := rfl
    rw [hbrace, hend, ← List.append_assoc, blockFrom_plain _ hplain]
  have hfind : Instantiation.findAll (c.statementLines ++ (Item.close 4).line.gap) =
      c.constructed.map Identifier.text := by
    have hscan := scan_statements id c.constructed [] (Item.close 4).line.isBlank_of_mem_gap
    have hofList : (String.ofList ∘ fun n : Identifier => n.text.toList) = Identifier.text := by
      funext n
      simp
    unfold Instantiation.findAll statementLines
    rw [ofText_eq]
    simp only [id] at hscan
    rw [hscan, List.map_map, hofList]
  have hrole : Extract.roleOf settings c.name.text c.constructorSignature.name = .constructor := by
    simp [Extract.roleOf, constructorSignature]
  rw [Extract.constructedIn, hrole, if_neg nofun, hblock]
  simp only [hfind]

/-! ## Parameters -/

theorem parameters_parameterList (types : List Identifier) :
    Source.parameters (parameterList types).toList =
      types.mapIdx fun k type => ⟨numbered "arg" k, type.text⟩ := by
  have hpiece : ∀ k (type : Identifier), (type.text ++ " " ++ numbered "arg" k).toList =
      type.text.toList ++ ' ' :: (numbered "arg" k).toList := fun k type => by simp
  have harg : ∀ k, numbered "arg" k ≠ "final" := fun k h => by
    have hletter : (numbered "arg" k).toList.head? = some 'a' := by
      rw [toList_numbered]
      rfl
    rw [h] at hletter
    exact absurd hletter (by decide)
  have hfinal : ∀ type : Identifier, type.text ≠ "final" := fun type h =>
    type.free (h ▸ (by decide : "final" ∈ languageWords))
  have hplain : ∀ {d}, isNameChar d = true ∨ d = ' ' → isPlain d = true := by
    rintro d (h | rfl)
    · exact isPlain_of_isNameChar h
    · decide
  have hpieces : ∀ p ∈ (types.mapIdx fun k type =>
      type.text ++ " " ++ numbered "arg" k).map String.toList, ∀ d ∈ p, isPlain d = true := by
    intro p hp d hd
    obtain ⟨text, htext, rfl⟩ := List.mem_map.1 hp
    obtain ⟨k, hk, rfl⟩ := List.mem_mapIdx.1 htext
    rw [hpiece, List.mem_append, List.mem_cons] at hd
    rcases hd with hd | hd | hd
    · exact hplain (.inl ((types[k]).isName.mem hd))
    · exact hplain (.inr hd)
    · exact hplain (.inl ((isName_numbered (by decide) k).mem hd))
  have hsep : ", ".toList = [',', ' '] := rfl
  rw [parameterList, String.toList_intercalate, hsep,
    parameters_intercalate fun p hp => .plain (hpieces p hp), List.filterMap_map]
  refine filterMap_mapIdx (parameter? ∘ String.toList) (fun k type => ?_) types
  have hpair := parameter?_pair type.isName (isName_numbered (by decide : IsName "arg".toList) k)
    (by simpa using hfinal type) (by simpa using harg k)
  simpa [hpiece] using hpair

/-! ## The round trip -/

/-- The class that an outline describes. -/
def classifier : Classifier where
  name := c.name.text
  kind := .classType
  attributes := c.fields.mapIdx fun i t => Attribute.declare (numbered "field" i) t.text .owner
  methods :=
    [⟨c.name.text, .everyone, [], .constructor⟩,
     ⟨"work", .everyone, c.parameters.mapIdx fun k type => ⟨numbered "arg" k, type.text⟩, .regular⟩]
  parent? := c.parent?.map Identifier.text
  interfaces := []
  typeParameters := []
  constants := []

/-- The constructed types, containers apart, in the order in which they first appear. -/
def evidence : List String :=
  ((c.constructed.map Identifier.text).filter fun type => !Settings.default.isContainer type).eraseDups

theorem ofSource?_render (hwork : c.name.text ≠ "work")
    (hfields : ∀ i < c.fields.length, c.name.text ≠ numbered "field" i) :
    Extract.ofSource? .default c.render = some ⟨c.classifier,
      (c.constructed.map Identifier.text).filter fun type => !Settings.default.isContainer type⟩ := by
  obtain ⟨start, body?, hsignatures⟩ := c.signatures_render
  have hname : c.declaration.name = c.name.text := rfl
  have hpublic : Visibility.ofModifiers "public".toList = .everyone := by decide
  have hregular : Extract.roleOf .default c.name.text "work" = .regular := by
    simp [Extract.roleOf, Ne.symm hwork, Settings.default]
  have hconstructor : Extract.method
      (Extract.roleOf .default c.name.text c.constructorSignature.name) c.constructorSignature =
      ⟨c.name.text, .everyone, [], .constructor⟩ := by
    have hrole : Extract.roleOf .default c.name.text c.name.text = .constructor := by
      simp [Extract.roleOf]
    have hparameters : Source.parameters [] = [] := rfl
    simp [Extract.method, Method.declare, constructorSignature, hrole, hparameters]
  have hmethod : Extract.method (Extract.roleOf .default c.name.text "work")
      ⟨"work", "public".toList, some "void", (parameterList c.parameters).toList, start, body?⟩ =
      ⟨"work", .everyone, c.parameters.mapIdx fun k type => ⟨numbered "arg" k, type.text⟩,
        .regular⟩ := by
    simp only [hregular, Extract.method, Method.declare, Signature.visibility, hpublic,
      parameters_parameterList]
    rfl
  have hnothing : Extract.constructedIn .default c.name.text ⟨"work", "public".toList, some "void",
      (parameterList c.parameters).toList, start, body?⟩ = [] := by
    rw [Extract.constructedIn, hregular, if_pos rfl]
  have hclass : Extract.ofClass .default c.render.toList c.declaration = ⟨c.classifier,
      (c.constructed.map Identifier.text).filter fun type => !Settings.default.isContainer type⟩ := by
    simp only [Extract.ofClass, hname, hsignatures, c.supertypes_header, hconstructor, hmethod,
      typeParameters_eq_nil c.stops_afterName, c.attributes_render hfields, List.map_cons,
      List.map_nil, List.flatMap_cons, List.flatMap_nil, c.constructedIn_constructor, hnothing,
      List.append_nil]
    rfl
  simp only [Extract.ofSource?, c.stripNoise_render, c.find?_render, Option.map_some]
  exact congrArg some hclass

end ClassOutline

/-- **Reading undoes printing.** Reading the text of an outline into an empty registry registers the
class that was printed, and what its constructor constructs. -/
theorem Registry.read_render (c : ClassOutline) (hwork : c.name.text ≠ "work")
    (hfields : ∀ i < c.fields.length, c.name.text ≠ numbered "field" i) :
    Registry.read .default .empty c.render =
      ⟨⟨[(c.name.text, c.classifier)]⟩,
        ⟨if c.evidence = [] then [] else [(c.name.text, c.evidence)]⟩⟩ := by
  rw [Registry.read, c.ofSource?_render hwork hfields]
  exact Registry.foldl_record c.name.text ⟨[(c.name.text, c.classifier)]⟩ _

/-- A class whose names hold words of the language, and whose constructor constructs a container and
one type twice. -/
def ledger : ClassOutline where
  name := .ofAscii "Ledger$class" (by decide) (by decide) (by decide)
  parent? := some (.ofAscii "Base$implements" (by decide) (by decide) (by decide))
  fields := [⟨.ofAscii "Entry" (by decide) (by decide) (by decide), true⟩,
    ⟨.ofAscii "_new1" (by decide) (by decide) (by decide), false⟩]
  constructed := [.ofAscii "Entry" (by decide) (by decide) (by decide),
    .ofAscii "ArrayList" (by decide) (by decide) (by decide),
    .ofAscii "throws" (by decide) (by decide) (by decide),
    .ofAscii "Entry" (by decide) (by decide) (by decide)]
  parameters := [.ofAscii "Query" (by decide) (by decide) (by decide)]

theorem read_render_ledger :
    (ledger.name.text ≠ "work" ∧
      ∀ i < ledger.fields.length, ledger.name.text ≠ numbered "field" i) ∧
    Registry.read .default .empty ledger.render =
      ⟨⟨[("Ledger$class", ledger.classifier)]⟩, ⟨[("Ledger$class", ["Entry", "throws"])]⟩⟩ := by
  have hwork : ledger.name.text ≠ "work" := by decide
  have hfields : ∀ i < ledger.fields.length, ledger.name.text ≠ numbered "field" i := by decide
  have hevidence : ledger.evidence = ["Entry", "throws"] := by decide
  refine ⟨⟨hwork, hfields⟩, ?_⟩
  rw [Registry.read_render ledger hwork hfields, hevidence]
  rfl

end ClassDiagram
