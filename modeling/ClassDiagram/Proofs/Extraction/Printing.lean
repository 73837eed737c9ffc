import ClassDiagram.Extraction
import ClassDiagram.Proofs.Source.Parameters
import ClassDiagram.Proofs.Source.Readings

/-!
# Printing a class

`ClassOutline.render` writes a class as source text: a parent, private fields, one constructor that
constructs some objects, and one method with some parameters. Behind its first line the text is a
list of `Item`s, each on a line of its own that ends with a brace or semicolon and holds no other
(`toList_render`).
-/

namespace ClassDiagram

open Text Source Cursor

/-! ## Outlines -/

/-- The words with a meaning of their own to a reading. -/
def languageWords : List String := reservedWords ++ Signature.modifierWords ++ Field.modifiers

theorem mem_languageWords_of_modifierWord {word : String} (h : word ∈ Signature.modifierWords) :
    word ∈ languageWords := by
  simp [languageWords, h]

theorem mem_languageWords_of_modifier {word : String} (h : word ∈ Field.modifiers) :
    word ∈ languageWords := by
  simp [languageWords, h]

/-- A name that is no word of the language. -/
structure Identifier where
  text : String
  isName : IsName text.toList
  free : text ∉ languageWords

/-- Every identifier in ASCII is one. -/
def Identifier.ofAscii (text : String) (hstart : text.toList.head?.any isNameStart = true)
    (hchars : text.toList.all (fun c => c.isAlphanum || c == '_' || c == '$') = true)
    (hfree : text ∉ languageWords) : Identifier where
  text := text
  isName := by
    refine ⟨hstart, List.all_eq_true.2 fun c hc => ?_⟩
    have hc := List.all_eq_true.1 hchars c hc
    simp only [Bool.or_eq_true, beq_iff_eq] at hc
    rcases hc with (halnum | rfl) | rfl
    · exact isNameChar_of_isAlphanum halnum
    · decide
    · decide
  free := hfree

theorem Identifier.not_isReserved (n : Identifier) : isReserved n.text = false := by
  have h : n.text ∉ reservedWords := fun h => n.free (by simp [languageWords, h])
  simpa [isReserved] using h

/-- The type of a field: an element or a list of them. -/
structure FieldType where
  element : Identifier
  many : Bool

/-- The type as written. -/
def FieldType.text (t : FieldType) : String :=
  if t.many then "List<" ++ t.element.text ++ ">" else t.element.text

/-- What a class of the plainest layout consists of. -/
structure ClassOutline where
  name : Identifier
  parent? : Option Identifier
  fields : List FieldType
  constructed : List Identifier
  parameters : List Identifier

namespace ClassOutline

/-- The clause that names the parent. -/
def parentClause (c : ClassOutline) : String :=
  match c.parent? with
  | some parent => " extends " ++ parent.text
  | none => ""

/-- The parameter list of the method. -/
def parameterList (parameters : List Identifier) : String :=
  String.intercalate ", " (parameters.mapIdx fun k type => type.text ++ " " ++ numbered "arg" k)

end ClassOutline

/-- What one line of a class says. -/
inductive Item where
  | field (index : Nat) (type : FieldType)
  | constructor (name : Identifier)
  | statement (index : Nat) (type : Identifier)
  | method (parameters : List Identifier)
  | close (indent : Nat)

/-- The line as written. -/
def Item.text : Item → String
  | field i type => "    private " ++ type.text ++ " " ++ numbered "field" i ++ ";\n"
  | constructor name => "    public " ++ name.text ++ "() \x7b\n"
  | statement j type => "        " ++ numbered "local" j ++ " = new " ++ type.text ++ "();\n"
  | method parameters => "    public void work(" ++ ClassOutline.parameterList parameters ++ ") \x7b\n"
  | close indent => String.ofList (List.replicate indent ' ') ++ "\x7d\n"

namespace ClassOutline

/-- The lines behind the first one. -/
def items (c : ClassOutline) : List Item :=
  c.fields.mapIdx Item.field ++ .constructor c.name :: (c.constructed.mapIdx Item.statement ++
    [.close 4, .method c.parameters, .close 4, .close 0])

/-- The source text of a class. -/
def render (c : ClassOutline) : String :=
  "public class " ++ c.name.text ++ c.parentClause ++ " \x7b\n" ++ String.join (c.items.map Item.text)

example :
    let a : Identifier := .ofAscii "A" (by decide) (by decide) (by decide)
    let b : Identifier := .ofAscii "B" (by decide) (by decide) (by decide)
    render ⟨a, some b, [⟨b, true⟩, ⟨a, false⟩], [b], [a, b]⟩ =
      "public class A extends B \x7b\n" ++
      "    private List<B> field0;\n" ++
      "    private A field1;\n" ++
      "    public A() \x7b\n" ++
      "        local0 = new B();\n" ++
      "    \x7d\n" ++
      "    public void work(A arg0, B arg1) \x7b\n" ++
      "    \x7d\n" ++
      "\x7d\n" := by decide +kernel

end ClassOutline

/-! ## The text of an outline -/

theorem mem_intercalate {sep : List Char} {ls : List (List Char)} {c : Char}
    (h : c ∈ List.intercalate sep ls) : c ∈ sep ∨ ∃ l ∈ ls, c ∈ l := by
  induction ls with
  | nil => simp at h
  | cons l ls ih =>
    cases ls with
    | nil => exact .inr ⟨l, by simp, by simpa using h⟩
    | cons l' ls =>
      rw [List.intercalate_cons_cons, List.mem_append, List.mem_append] at h
      rcases h with (hl | hsep) | hrest
      · exact .inr ⟨l, List.mem_cons_self, hl⟩
      · exact .inl hsep
      · exact (ih hrest).imp id fun ⟨k, hk, hc⟩ => ⟨k, List.mem_cons_of_mem l hk, hc⟩

theorem mem_fieldType {t : FieldType} {c : Char} (h : c ∈ t.text.toList) :
    isNameChar c = true ∨ c = '<' ∨ c = '>' := by
  unfold FieldType.text at h
  split at h
  · simp only [String.toList_append, List.mem_append] at h
    rcases h with (h | h) | h
    · have hlist : "List<".toList.all (fun c => isNameChar c || c == '<') = true := by decide
      have hc := List.all_eq_true.1 hlist c h
      simp only [Bool.or_eq_true, beq_iff_eq] at hc
      exact hc.imp id .inl
    · exact .inl (t.element.isName.mem h)
    · exact .inr (.inr (by simpa using h))
  · exact .inl (t.element.isName.mem h)

theorem mem_parameterList {parameters : List Identifier} {c : Char}
    (h : c ∈ (ClassOutline.parameterList parameters).toList) :
    isNameChar c = true ∨ c = ' ' ∨ c = ',' := by
  rw [ClassOutline.parameterList, String.toList_intercalate] at h
  rcases mem_intercalate h with h | ⟨piece, hpiece, h⟩
  · have hsep : c = ',' ∨ c = ' ' := by simpa using h
    exact .inr hsep.symm
  · obtain ⟨text, htext, rfl⟩ := List.mem_map.1 hpiece
    obtain ⟨k, hk, rfl⟩ := List.mem_mapIdx.1 htext
    simp only [String.toList_append, List.mem_append] at h
    rcases h with (h | h) | h
    · exact .inl ((parameters[k]).isName.mem h)
    · exact .inr (.inl (by simpa using h))
    · exact .inl ((isName_numbered (by decide) k).mem h)

theorem inline_of_isNameChar {c : Char} (h : isNameChar c = true) :
    Member.isMark c = false ∧ c ≠ '\n' := by
  refine ⟨?_, ne_of_isNameChar h (by decide)⟩
  simp [Member.isMark, ne_of_isNameChar h (by decide : isNameChar '{' = false),
    ne_of_isNameChar h (by decide : isNameChar '}' = false),
    ne_of_isNameChar h (by decide : isNameChar ';' = false)]

namespace Item

/-- The line without indentation and mark. -/
def body : Item → List Char
  | field i type =>
    "private".toList ++ ' ' :: (type.text.toList ++ ' ' :: (numbered "field" i).toList)
  | constructor name => "public".toList ++ ' ' :: (name.text.toList ++ ['(', ')', ' '])
  | statement j type =>
    (numbered "local" j).toList ++ (" = new ".toList ++ (type.text.toList ++ ['(', ')']))
  | method parameters =>
    "public".toList ++ ' ' :: ("void".toList ++ ' ' :: ("work".toList ++
      '(' :: ((ClassOutline.parameterList parameters).toList ++ [')', ' '])))
  | close _ => []

/-- Besides names a line holds only these characters. -/
theorem mem_body {item : Item} {c : Char} (h : c ∈ item.body) :
    isNameChar c = true ∨ c ∈ [' ', '<', '>', '(', ')', '=', ','] := by
  have hname : ∀ {n : List Char}, IsName n → c ∈ n →
      isNameChar c = true ∨ c ∈ [' ', '<', '>', '(', ')', '=', ','] := fun hn hc => .inl (hn.mem hc)
  cases item with
  | field i type =>
    unfold body at h
    simp only [List.mem_append, List.mem_cons] at h
    rcases h with h | rfl | h | rfl | h
    · exact hname (by decide) h
    · simp
    · rcases mem_fieldType h with h | rfl | rfl <;> simp_all
    · simp
    · exact hname (isName_numbered (by decide) i) h
  | constructor name =>
    unfold body at h
    simp only [List.mem_append, List.mem_cons] at h
    rcases h with h | rfl | h | h
    · exact hname (by decide) h
    · simp
    · exact hname name.isName h
    · rcases h with rfl | rfl | rfl | h <;> simp_all
  | statement j type =>
    unfold body at h
    simp only [List.mem_append, List.mem_cons] at h
    rcases h with h | h | h | h
    · exact hname (isName_numbered (by decide) j) h
    · have hassign : " = new ".toList.all (fun c => isNameChar c || c == ' ' || c == '=') = true := by
        decide
      have hc := List.all_eq_true.1 hassign c h
      simp only [Bool.or_eq_true, beq_iff_eq] at hc
      rcases hc with (hc | rfl) | rfl <;> simp_all
    · exact hname type.isName h
    · rcases h with rfl | rfl | h <;> simp_all
  | method parameters =>
    unfold body at h
    simp only [List.mem_append, List.mem_cons] at h
    rcases h with h | rfl | h | rfl | h | rfl | h | h
    · exact hname (by decide) h
    · simp
    · exact hname (by decide) h
    · simp
    · exact hname (by decide) h
    · simp
    · rcases mem_parameterList h with h | rfl | rfl <;> simp_all
    · rcases h with rfl | rfl | h <;> simp_all
  | close indent => cases h

/-- The number of blanks in front of the line. -/
def indent : Item → Nat
  | field .. | constructor _ | method _ => 4
  | statement .. => 8
  | close indent => indent

/-- The character that ends the line. -/
def mark : Item → Char
  | field .. | statement .. => ';'
  | constructor _ | method _ => '{'
  | close _ => '}'

/-- The line of an item. -/
def line (item : Item) : Member.Line where
  indent := item.indent
  body := item.body
  mark := item.mark
  isMark_mark := by cases item <;> rfl
  inline c hc := by
    rcases mem_body hc with h | h
    · exact inline_of_isNameChar h
    · simp only [List.mem_cons, List.not_mem_nil, or_false] at h
      rcases h with rfl | rfl | rfl | rfl | rfl | rfl | rfl <;> decide

theorem toList_text (item : Item) : '\n' :: item.text.toList = item.line.chars ++ ['\n'] := by
  simp only [line, Member.Line.chars, Member.Line.gap]
  cases item <;>
    · unfold body text
      simp [indent, mark]

end Item

namespace ClassOutline

/-- The first line behind the access keyword, up to its brace. -/
def opening (c : ClassOutline) : List Char :=
  "class".toList ++ ' ' :: (c.name.text.toList ++ (c.parentClause.toList ++ [' ']))

theorem opening_append (c : ClassOutline) (w : List Char) :
    c.opening ++ '{' :: w = "class".toList ++ ' ' :: (c.name.text.toList ++
      (c.parentClause.toList ++ ' ' :: '{' :: w)) := by
  unfold opening
  simp

/-- Everything behind the first line's brace. -/
def lines (c : ClassOutline) : List Char :=
  c.items.flatMap (fun item => item.line.chars) ++ ['\n']

theorem toList_render (c : ClassOutline) :
    c.render.toList = "public ".toList ++ (c.opening ++ '{' :: c.lines) := by
  have hlines : ∀ items : List Item, '\n' :: (String.join (items.map Item.text)).toList =
      items.flatMap (fun item => item.line.chars) ++ ['\n'] := by
    intro items
    induction items with
    | nil => rfl
    | cons item items ih =>
      rw [List.flatMap_cons, List.append_assoc, ← ih, List.append_cons, ← Item.toList_text]
      simp
  rw [lines, ← hlines, opening_append]
  unfold render
  simp

end ClassOutline

end ClassDiagram
