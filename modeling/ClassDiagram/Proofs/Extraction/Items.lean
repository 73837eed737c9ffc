import ClassDiagram.Proofs.Extraction.Printing

/-!
# What the scans make of the lines of a class

* `signature_item`: the constructor and the method give signatures, the other lines give none;
* `field_item`: a field gives its modifier, type and name.
-/

namespace ClassDiagram

open Text Source Cursor

/-! ## Field types -/

/-- A field type is a name, alone or with an argument behind it. -/
theorem FieldType.split (t : FieldType) :
    ∃ n arguments, t.text.toList = n ++ arguments ∧ IsName n ∧ String.ofList n ∉ languageWords ∧
      (arguments = [] ∨ ∃ cs, arguments = '<' :: cs) := by
  unfold FieldType.text
  split
  · exact ⟨"List".toList, '<' :: (t.element.text.toList ++ ['>']), by simp, by decide, by decide,
      .inr ⟨_, rfl⟩⟩
  · exact ⟨t.element.text.toList, [], by simp, t.element.isName, by simpa using t.element.free,
      .inl rfl⟩

theorem typeText?_fieldType (t : FieldType) (u : List Char) {n w : List Char} (hn : IsName n)
    (hw : Stops Member.isArgumentChar w) :
    Member.typeText? (between u (t.text.toList ++ ' ' :: (n ++ w))) =
      some (between (u ++ t.text.toList) (' ' :: (n ++ w))) := by
  unfold FieldType.text
  split
  · have hlist := Member.typeText?_argument u (by decide : IsName "List".toList) t.element.isName hn
      hw
    simpa using hlist
  · exact Member.typeText?_name_name u t.element.isName hn w

section Split

variable {n arguments : List Char} (hn : IsName n)
  (harguments : arguments = [] ∨ ∃ cs, arguments = '<' :: cs)

include harguments in
theorem stops_arguments (w : List Char) : Stops isNameChar (arguments ++ ' ' :: w) := by
  rcases harguments with rfl | ⟨cs, rfl⟩
  · exact stops_cons.2 (by decide)
  · exact stops_cons.2 (by decide)

include hn harguments in
/-- A type and a name, without parentheses, are no signature. -/
theorem named?_type (returnType? : Option (List Char)) (u : List Char) {m : List Char}
    (hm : IsName m) (w : List Char) :
    Signature.named? returnType? (between u (n ++ (arguments ++ ' ' :: (m ++ w)))) = none := by
  apply Signature.named?_eq_none returnType? u hn (stops_arguments harguments _)
  rcases harguments with rfl | ⟨cs, rfl⟩
  · rw [List.nil_append, dropWhile_blank_name hm]
    exact hm.stops_eq (by decide) w
  · exact stops_cons.2 (by decide)

end Split

/-! ## Field lines -/

theorem body_field (i : Nat) (t : FieldType) (w : List Char) :
    (Item.field i t).body ++ ';' :: w = "private".toList ++
      ' ' :: (t.text.toList ++ ' ' :: ((numbered "field" i).toList ++ ';' :: w)) := by
  unfold Item.body
  simp

/-- Both scans pass the modifier of a field, and no other. -/
theorem from?_field {α : Type} {modifiers : List String} (rest? : Cursor → Option α)
    (hnames : ∀ word ∈ modifiers, IsName word.toList)
    (hwords : ∀ word ∈ modifiers, word ∈ languageWords) (hprivate : "private" ∈ modifiers)
    (i : Nat) (t : FieldType) (u w : List Char) :
    let start := between u ((Item.field i t).body ++ ';' :: w)
    let stop := between (u ++ "private".toList ++ [' '])
      (t.text.toList ++ ' ' :: ((numbered "field" i).toList ++ ';' :: w))
    Member.from? modifiers rest? start =
      ((rest? stop).map (Member.Reading.mk start stop)).or
        ((rest? start).map (Member.Reading.mk start start)) := by
  intro start stop
  obtain ⟨base, arguments, htext, hbase, hfree, harguments⟩ := t.split
  have hstops : Stops isBlank
      (t.text.toList ++ ' ' :: ((numbered "field" i).toList ++ ';' :: w)) := by
    rw [htext, List.append_assoc]
    exact hbase.stops_blank _
  have hmod : ∀ v, Member.modifier? modifiers
      (between v (t.text.toList ++ ' ' :: ((numbered "field" i).toList ++ ';' :: w))) = none := by
    intro v
    rw [htext, List.append_assoc, Member.modifier?_word hnames v hbase
      (stops_arguments harguments _), if_neg fun h => hfree (hwords _ h)]
  have hname : IsName "private".toList := by decide
  have hstart : start = between u ("private".toList ++
      ' ' :: (t.text.toList ++ ' ' :: ((numbered "field" i).toList ++ ';' :: w))) :=
    congrArg (between u) (body_field i t w)
  rw [hstart]
  exact Member.from?_modifier hnames u hname (by rwa [String.ofList_toList]) hstops (hmod _)

/-- A field gives its modifier, type and name, and ends at its semicolon. -/
theorem field_item (i : Nat) (t : FieldType) (u w : List Char) :
    (Member.from? Field.modifiers Field.rest?
      (between u ((Item.field i t).body ++ ';' :: w))).map Field.ofReading =
    some (("private ".toList, t.text.toList, (numbered "field" i).toList),
      byteSize (u ++ (Item.field i t).body)) := by
  have hfield : IsName (numbered "field" i).toList := isName_numbered (by decide) i
  have hstop : u ++ "private".toList ++ [' '] ++
      (t.text.toList ++ ' ' :: (numbered "field" i).toList) = u ++ (Item.field i t).body := by
    unfold Item.body
    simp
  have hrest := Field.rest?_between (u ++ "private".toList ++ [' ']) (w := w) hfield
    (typeText?_fieldType t _ hfield (stops_cons.2 (by decide)))
  rw [hstop] at hrest
  rw [from?_field Field.rest? Field.isName_modifiers (fun _ => mem_languageWords_of_modifier)
    (by decide), hrest, body_field]
  simp only [Option.map_some, Option.some_or, Field.ofReading, Member.upTo_modifier, offset_between]
  rfl

theorem tail?_field (t : FieldType) (u : List Char) {n : List Char} (hn : IsName n)
    (w : List Char) :
    Signature.tail? (between u (t.text.toList ++ ' ' :: (n ++ ';' :: w))) = none := by
  have htype := typeText?_fieldType t u hn (w := ';' :: w) (stops_cons.2 (by decide))
  have hname : ∀ r v, Signature.named? r (between v (n ++ ';' :: w)) = none := fun r v =>
    Signature.named?_eq_none r v hn (stops_cons.2 (by decide)) (stops_cons.2 (by decide))
  have htyped : Signature.typed? (between u (t.text.toList ++ ' ' :: (n ++ ';' :: w))) = none := by
    simp [Signature.typed?, htype, skipSome?_blank_name _ hn, hname]
  obtain ⟨m, arguments, htext, hm, -, harguments⟩ := t.split
  rw [Signature.tail?, htyped, Option.none_or, htext, List.append_assoc]
  exact named?_type hm harguments none u hn _

/-- Neither is it one when the modifier is taken for a type. -/
theorem tail?_modified_field (t : FieldType) (u : List Char) {m n : List Char} (hm : IsName m)
    (hn : IsName n) (w : List Char) :
    Signature.tail? (between u (m ++ ' ' :: (t.text.toList ++ ' ' :: (n ++ ';' :: w)))) = none := by
  obtain ⟨base, arguments, htext, hbase, -, harguments⟩ := t.split
  rw [htext, List.append_assoc]
  have hname : ∀ r v,
      Signature.named? r (between v (base ++ (arguments ++ ' ' :: (n ++ ';' :: w)))) = none :=
    fun r v => named?_type hbase harguments r v hn _
  have hfirst : Signature.named? none (between u (m ++ ' ' :: (base ++ (arguments ++
      ' ' :: (n ++ ';' :: w))))) = none := by
    apply Signature.named?_eq_none none u hm (stops_cons.2 (by decide))
    rw [dropWhile_blank_name hbase]
    exact hbase.stops_eq (by decide) _
  simp [Signature.tail?, Signature.typed?, Member.typeText?_name_name u hm hbase,
    skipSome?_blank_name _ hbase, hname, hfirst]

theorem signature_field (i : Nat) (t : FieldType) (u w : List Char) :
    Member.from? Signature.modifierWords Signature.tail?
      (between u ((Item.field i t).body ++ ';' :: w)) = none := by
  have hfield : IsName (numbered "field" i).toList := isName_numbered (by decide) i
  rw [from?_field Signature.tail? Signature.isName_modifierWords
    (fun _ => mem_languageWords_of_modifierWord) (by decide), tail?_field t _ hfield, body_field,
    tail?_modified_field t u (by decide) hfield]
  rfl

/-! ## Other lines -/

theorem signature_statement (j : Nat) (n : Identifier) (u w : List Char) :
    Member.from? Signature.modifierWords Signature.tail?
      (between u ((Item.statement j n).body ++ ';' :: w)) = none := by
  have hlocal : IsName (numbered "local" j).toList := isName_numbered (by decide) j
  obtain ⟨rest, hbody⟩ : ∃ rest, (Item.statement j n).body ++ ';' :: w =
      (numbered "local" j).toList ++ ' ' :: '=' :: rest := by
    unfold Item.body
    rw [List.append_assoc]
    exact ⟨_, rfl⟩
  -- no modifier starts with the letter that starts the statement
  have hfree : String.ofList (numbered "local" j).toList ∉ Signature.modifierWords := by
    have hletter : ∀ word ∈ Signature.modifierWords, word.toList.head? ≠ some 'l' := by decide
    intro h
    apply hletter _ h
    rw [String.toList_ofList, toList_numbered]
    rfl
  have hmod := Member.modifier?_word Signature.isName_modifierWords u hlocal
    (w := ' ' :: '=' :: rest) (stops_cons.2 (by decide))
  rw [if_neg hfree] at hmod
  rw [hbody, Member.from?_plain u (hlocal.stops_blank _) (hlocal.stops_eq (by decide) _) hmod,
    Signature.tail?_assignment u hlocal, Option.map_none]

/-- A public signature with a body. -/
theorem signature_public (u : List Char) {n w : List Char} (hn : IsName n)
    (hfree : String.ofList n ∉ Signature.modifierWords) (hw : Stops isNameChar w)
    {tail : Signature.Tail} (hbrace : tail.stop.rest.head? = some '{')
    (htail : Signature.tail? (between (u ++ "public".toList ++ [' ']) (n ++ w)) = some tail) :
    (Member.from? Signature.modifierWords Signature.tail?
      (between u ("public".toList ++ ' ' :: (n ++ w)))).map Signature.ofReading =
    some (⟨String.ofList tail.name, "public".toList, tail.returnType?.map String.ofList,
      tail.parameters, between u ("public".toList ++ ' ' :: (n ++ w)), some tail.stop⟩,
      tail.stop.offset) := by
  have hpublic : IsName "public".toList := by decide
  have hmod : ∀ v, Member.modifier? Signature.modifierWords (between v (n ++ w)) = none := by
    intro v
    rw [Member.modifier?_word Signature.isName_modifierWords v hn hw, if_neg hfree]
  have htrim : trim ("public".toList ++ [' ']) = "public".toList := by decide
  rw [Member.from?_modifier Signature.isName_modifierWords u hpublic (by decide)
    (hn.stops_blank w) (hmod _), htail]
  simp only [Option.map_some, Option.some_or, Signature.ofReading, Member.upTo_modifier, htrim]
  simp [hbrace]

theorem signature_constructor (n : Identifier) (u w : List Char) :
    (Member.from? Signature.modifierWords Signature.tail?
      (between u ((Item.constructor n).body ++ '{' :: w))).map Signature.ofReading =
    some (⟨n.text, "public".toList, none, [], between u ((Item.constructor n).body ++ '{' :: w),
      some (between (u ++ (Item.constructor n).body) ('{' :: w))⟩,
      byteSize (u ++ (Item.constructor n).body)) := by
  have hbody : (Item.constructor n).body ++ '{' :: w = "public".toList ++
      ' ' :: (n.text.toList ++ '(' :: ([] ++ ')' :: ' ' :: '{' :: w)) := by
    unfold Item.body
    simp
  have hstop : u ++ "public".toList ++ [' '] ++ (n.text.toList ++ '(' :: ([] ++ [')', ' '])) =
      u ++ (Item.constructor n).body := by
    unfold Item.body
    simp
  have hfree : String.ofList n.text.toList ∉ Signature.modifierWords := fun h =>
    n.free (mem_languageWords_of_modifierWord (by simpa using h))
  have htyped : ∀ v, Signature.typed?
      (between v (n.text.toList ++ '(' :: ([] ++ ')' :: ' ' :: '{' :: w))) = none := fun v => by
    have htype := Member.typeText?_name v n.isName (w := '(' :: ([] ++ ')' :: ' ' :: '{' :: w))
      (stops_cons.2 (by decide)) (stops_cons.2 (by decide)) (stops_cons.2 (by decide))
    have hblank : ∀ v,
        (between v ('(' :: ([] ++ ')' :: ' ' :: '{' :: w))).skipSome? isBlank = none := fun v =>
      skipSome?_of_stops v (stops_cons.2 (by decide))
    simp only [Signature.typed?, htype, hblank, Option.bind_eq_bind, Option.bind_some,
      Option.bind_none]
  have hnamed := Signature.named?_between none (u ++ "public".toList ++ [' ']) w n.isName (p := [])
    (by simp)
  rw [hstop] at hnamed
  rw [hbody, signature_public u n.isName hfree (stops_cons.2 (by decide)) rfl
    (by rw [Signature.tail?, htyped, Option.none_or, hnamed])]
  simp

theorem signature_method (parameters : List Identifier) (u w : List Char) :
    (Member.from? Signature.modifierWords Signature.tail?
      (between u ((Item.method parameters).body ++ '{' :: w))).map Signature.ofReading =
    some (⟨"work", "public".toList, some "void", (ClassOutline.parameterList parameters).toList,
      between u ((Item.method parameters).body ++ '{' :: w),
      some (between (u ++ (Item.method parameters).body) ('{' :: w))⟩,
      byteSize (u ++ (Item.method parameters).body)) := by
  have hvoid : IsName "void".toList := by decide
  have hwork : IsName "work".toList := by decide
  have hbody : (Item.method parameters).body ++ '{' :: w = "public".toList ++
      ' ' :: ("void".toList ++ (' ' :: ("work".toList ++ '(' ::
        ((ClassOutline.parameterList parameters).toList ++ ')' :: ' ' :: '{' :: w)))) := by
    unfold Item.body
    simp
  have hstop : u ++ "public".toList ++ [' '] ++ "void".toList ++ [' '] ++ ("work".toList ++
      '(' :: ((ClassOutline.parameterList parameters).toList ++ [')', ' '])) =
      u ++ (Item.method parameters).body := by
    unfold Item.body
    simp
  have hparens : ∀ c ∈ (ClassOutline.parameterList parameters).toList, c ≠ '(' ∧ c ≠ ')' := by
    intro c hc
    rcases mem_parameterList hc with h | rfl | rfl
    · exact ⟨ne_of_isNameChar h (by decide), ne_of_isNameChar h (by decide)⟩
    · decide
    · decide
  have hnamed := Signature.named?_between (some "void".toList)
    (u ++ "public".toList ++ [' '] ++ "void".toList ++ [' ']) w hwork hparens
  rw [hstop] at hnamed
  have htyped : Signature.typed? (between (u ++ "public".toList ++ [' ']) ("void".toList ++
      (' ' :: ("work".toList ++ '(' ::
        ((ClassOutline.parameterList parameters).toList ++ ')' :: ' ' :: '{' :: w))))) =
      some ⟨some "void".toList, "work".toList, (ClassOutline.parameterList parameters).toList,
        between (u ++ (Item.method parameters).body) ('{' :: w)⟩ := by
    simp only [Signature.typed?, Member.typeText?_name_name _ hvoid hwork,
      skipSome?_blank_name _ hwork, upTo_between, hnamed, Option.bind_eq_bind, Option.bind_some]
  rw [hbody, signature_public u hvoid (by decide) (stops_cons.2 (by decide)) rfl
    (by rw [Signature.tail?, htyped, Option.some_or])]
  simp

/-- The signature that a line gives when it stands between `u` and `w`. -/
def Item.signature? (u : List Char) (item : Item) (w : List Char) : Option Signature :=
  let start := between (u ++ item.line.gap) (item.body ++ '{' :: w)
  let brace := between (u ++ item.line.gap ++ item.body) ('{' :: w)
  match item with
  | constructor name => some ⟨name.text, "public".toList, none, [], start, some brace⟩
  | method parameters =>
    some ⟨"work", "public".toList, some "void",
      (ClassOutline.parameterList parameters).toList, start, some brace⟩
  | _ => none

/-- Constructor and method give signatures that end at their brace; no other line gives one. -/
theorem signature_item (item : Item) (u w : List Char) :
    (Member.from? Signature.modifierWords Signature.tail?
      (between (u ++ item.line.gap) (item.line.body ++ item.line.mark :: w))).map
        Signature.ofReading =
    (item.signature? u w).map fun s => (s, byteSize (u ++ item.line.gap ++ item.line.body)) := by
  cases item with
  | field i t => exact congrArg _ (signature_field i t _ w)
  | constructor n => exact signature_constructor n _ w
  | statement j n => exact congrArg _ (signature_statement j n _ w)
  | method parameters => exact signature_method parameters _ w
  | close indent =>
    exact congrArg _ (Member.from?_mark Signature.isName_modifierWords Signature.tail?_of_stops _ w
      (by decide : Member.isMark '}' = true))

end ClassDiagram
