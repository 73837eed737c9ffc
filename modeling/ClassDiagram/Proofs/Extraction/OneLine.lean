import Mathlib.Data.Option.Basic
import ClassDiagram.Proofs.Document.Lines
import ClassDiagram.Proofs.Extraction.Units
import ClassDiagram.Proofs.Source.Progress

/-!
# Texts on one line

A declaration may be broken into lines anywhere between its words, yet what is read from it stands
on one line: a name is a run of name characters, and the written form of a type keeps no blanks but
the space behind a comma (`Registry.unbroken_ofSources`). Interface names are the exception, since
only the blanks at their two ends are dropped; nothing is said of them here.
-/

namespace ClassDiagram

open Text Document

namespace Source

/-! ## Names -/

theorem oneLine_of_name? {k k' : Cursor} {name : List Char} (h : name? k = some (name, k')) :
    OneLine (String.ofList name) := by
  apply OneLine.of_class isNameChar (by decide +kernel)
  intro c hc
  rw [String.toList_ofList] at hc
  exact isNameChar_of_name? h hc

theorem Declaration.oneLine_name_of_at? {kinds : List ClassifierKind} {k : Cursor}
    {d : Declaration} (h : at? kinds k = some d) : OneLine d.name := by
  simp only [at?, Option.bind_eq_bind, Option.bind_eq_some_iff] at h
  obtain ⟨-, -, h⟩ := h
  obtain ⟨kind, -, hread⟩ := List.exists_of_findSome?_eq_some h
  simp only [Option.bind_eq_some_iff] at hread
  obtain ⟨k₁, -, k₂, -, ⟨name, stop⟩, hname, heq⟩ := hread
  cases heq
  exact oneLine_of_name? hname

theorem Declaration.oneLine_name {text : List Char} {d : Declaration}
    (h : find? text = some d) : OneLine d.name := by
  rcases Option.or_eq_some_iff.1 h with h | ⟨-, h⟩
  all_goals
    obtain ⟨k, hread⟩ := Cursor.exists_of_find? h
    exact oneLine_name_of_at? hread

theorem Declaration.oneLine_constants (d : Declaration) {constant : String}
    (h : constant ∈ d.constants) : OneLine constant := by
  unfold constants at h
  split at h
  · cases h
  · obtain ⟨piece, -, hpiece⟩ := List.mem_filterMap.1 h
    obtain ⟨⟨name, k⟩, hname, rfl⟩ := Option.map_eq_some_iff.1 hpiece
    exact oneLine_of_name? hname

theorem Supertypes.oneLine_parent {header : List Char} {parent : String}
    (h : (ofHeader header).parent? = some parent) : OneLine parent := by
  obtain ⟨cs, hfind, rfl⟩ := Option.map_eq_some_iff.1 h
  obtain ⟨k, hread⟩ := Cursor.exists_of_find? hfind
  simp only [parentAt?, Option.bind_eq_bind, Option.bind_eq_some_iff] at hread
  obtain ⟨-, -, k₁, -, k₂, -, -, -, heq⟩ := hread
  cases heq
  apply OneLine.of_class isPathChar (by decide +kernel)
  intro c hc
  rw [String.toList_ofList] at hc
  exact List.all_eq_true.1 List.all_takeWhile c hc

/-! ## Types and parameters -/

theorem mem_withoutBlanks {cs : List Char} {c : Char} (h : c ∈ withoutBlanks cs) :
    isBlank c = false ∨ c = ' ' := by
  induction cs with
  | nil => cases h
  | cons d cs ih =>
    unfold withoutBlanks at h
    split at h
    next => exact ih h
    next hblank =>
      have hd : isBlank d = false := Bool.eq_false_iff.2 hblank
      split at h
      next hcomma =>
        rw [beq_iff_eq.1 hcomma] at hd
        rcases List.mem_cons.1 h with rfl | h
        · exact Or.inl hd
        · exact (List.mem_cons.1 h).elim Or.inr ih
      next =>
        rcases List.mem_cons.1 h with rfl | h
        · exact Or.inl hd
        · exact ih h

theorem newline_not_mem_normalizeType (cs : List Char) : '\n' ∉ normalizeType cs := by
  have hbare : '\n' ∉ withoutBlanks cs := by
    intro hmem
    exact (mem_withoutBlanks hmem).elim (by decide) (by decide)
  unfold normalizeType dropTrailing?
  simp only
  split
  next base hbase =>
    split at hbase
    · cases hbase
      intro hmem
      rcases List.mem_append.1 hmem with hmem | hmem
      · exact hbare (List.mem_of_mem_take hmem)
      · exact absurd hmem (by decide)
    · cases hbase
  next => exact hbare

theorem isBlank_of_mem_wordsFrom {held cs word : List Char} (h : word ∈ wordsFrom held cs)
    (hheld : ∀ c ∈ held, isBlank c = false) {c : Char} (hc : c ∈ word) : isBlank c = false := by
  fun_induction wordsFrom held cs with
  | case1 => cases h
  | case2 held =>
    rw [List.mem_singleton.1 h, List.mem_reverse] at hc
    exact hheld c hc
  | case3 d cs _ ih => exact ih h nofun
  | case4 held d cs _ _ ih =>
    rcases List.mem_cons.1 h with rfl | h
    · exact hheld c (List.mem_reverse.1 hc)
    · exact ih h nofun
  | case5 held d cs hblank ih =>
    refine ih h ?_
    intro c' hc'
    rcases List.mem_cons.1 hc' with rfl | hc'
    · exact Bool.eq_false_iff.2 hblank
    · exact hheld c' hc'

/-- Moving brackets adds nothing but brackets to the type, and nothing to the name. -/
theorem not_mem_moveBrackets {a : Char} (ha : a ≠ '[' ∧ a ≠ ']') (type name : List Char)
    (htype : a ∉ type) (hname : a ∉ name) :
    a ∉ (moveBrackets type name).1 ∧ a ∉ (moveBrackets type name).2 := by
  fun_induction moveBrackets type name with
  | case1 type name ih =>
    refine ih ?_ fun hmem => hname (by simp [hmem])
    simp [htype, ha]
  | case2 type name => exact ⟨htype, fun hmem => hname (List.mem_reverse.1 hmem)⟩

theorem oneLine_of_parameter? {piece : List Char} {p : Parameter} (h : parameter? piece = some p) :
    OneLine p.name ∧ OneLine p.type := by
  unfold parameter? at h
  simp only at h
  split at h
  next => cases h
  next =>
    cases h
    have hempty : OneLine "" := by decide
    exact ⟨hempty, .ofList (newline_not_mem_normalizeType _)⟩
  next name type _ htokens =>
    cases h
    have hword : name ∈ words piece := by
      have hmem : name ∈ ((words piece).filter _).reverse := htokens ▸ List.mem_cons_self
      exact (List.mem_filter.1 (List.mem_reverse.1 hmem)).1
    have hname : '\n' ∉ name.reverse := by
      intro hmem
      have hblank := isBlank_of_mem_wordsFrom hword nofun (List.mem_reverse.1 hmem)
      exact absurd hblank (by decide)
    obtain ⟨htype', hname'⟩ := not_mem_moveBrackets (by decide)
      (normalizeType type.reverse.flatten) name.reverse (newline_not_mem_normalizeType _) hname
    exact ⟨.ofList hname', .ofList htype'⟩

theorem oneLine_parameters {cs : List Char} {p : Parameter} (h : p ∈ parameters cs) :
    OneLine p.name ∧ OneLine p.type := by
  obtain ⟨piece, -, hpiece⟩ := List.mem_filterMap.1 h
  exact oneLine_of_parameter? hpiece

/-! ## Members -/

theorem Field.oneLine_of_mem {text : List Char} {f : Field} (h : f ∈ findAll text) :
    OneLine f.name ∧ OneLine f.type := by
  obtain ⟨found, hscan, hf⟩ := List.mem_filterMap.1 h
  obtain ⟨k, next, hread⟩ := Cursor.exists_of_mem_scan hscan
  obtain ⟨⟨start, stop, type, name, semicolon⟩, hmember, heq⟩ := Option.map_eq_some_iff.1 hread
  obtain ⟨-, -, hrest⟩ := Member.reaches_of_at? hmember
  simp only [rest?, Option.bind_eq_bind, Option.bind_eq_some_iff] at hrest
  obtain ⟨k₁, -, k₂, -, ⟨name', k₃⟩, hname, -, -, hreading⟩ := hrest
  cases hreading
  cases heq
  simp only at hf
  split at hf
  · cases hf
  · cases hf
    exact ⟨oneLine_of_name? hname, .ofList (newline_not_mem_normalizeType _)⟩

theorem Signature.oneLine_of_named? {returnType? : Option (List Char)} {k : Cursor} {tail : Tail}
    (h : named? returnType? k = some tail) : OneLine (String.ofList tail.name) := by
  simp only [named?, Option.bind_eq_bind, Option.bind_eq_some_iff] at h
  obtain ⟨⟨name, k₁⟩, hname, k₂, -, k₃, -, -, -, heq⟩ := h
  cases heq
  exact oneLine_of_name? hname

theorem Signature.oneLine_name {text : List Char} {least : Nat} {owner : String} {s : Signature}
    (h : s ∈ findAll text least owner) : OneLine s.name := by
  obtain ⟨k, next, hread⟩ := Cursor.exists_of_mem_scan (List.mem_filter.1 h).1
  obtain ⟨reading, hmember, heq⟩ := Option.map_eq_some_iff.1 hread
  obtain ⟨-, -, hrest⟩ := Member.reaches_of_at? hmember
  cases heq
  rcases Option.or_eq_some_iff.1 hrest with htyped | ⟨-, hnamed⟩
  · simp only [typed?, Option.bind_eq_bind, Option.bind_eq_some_iff] at htyped
    obtain ⟨stop, -, k₁, -, hnamed⟩ := htyped
    exact oneLine_of_named? hnamed
  · exact oneLine_of_named? hnamed

end Source

/-! ## Classifiers and registries -/

/-- What a classifier shows in its block, and its parent, stand on one line; the type of a field is
what its written form reads as. -/
structure Classifier.Unbroken (c : Classifier) : Prop where
  name : OneLine c.name
  parent : ∀ parent, c.parent? = some parent → OneLine parent
  constants : ∀ constant ∈ c.constants, OneLine constant
  attributes : ∀ a ∈ c.attributes, OneLine a.name ∧ OneLine a.declaredType ∧
    a.type? = TypeExpr.read? a.declaredType
  methods : ∀ m ∈ c.methods, OneLine m.name ∧
    ∀ p ∈ m.parameters, OneLine p.name ∧ OneLine p.type

namespace Extract

open Source

theorem oneLine_method {text : List Char} {least : Nat} {owner : String}
    (role : Signature → MethodRole) {m : Method}
    (h : m ∈ (Signature.findAll text least owner).map fun s => method (role s) s) :
    OneLine m.name ∧ ∀ p ∈ m.parameters, OneLine p.name ∧ OneLine p.type := by
  obtain ⟨s, hs, rfl⟩ := List.mem_map.1 h
  exact ⟨Signature.oneLine_name hs, fun _ => oneLine_parameters⟩

theorem oneLine_attribute {d : Declaration} {signatures : List Signature} {a : Attribute}
    (h : a ∈ attributes d signatures) : OneLine a.name ∧ OneLine a.declaredType ∧
      a.type? = TypeExpr.read? a.declaredType := by
  obtain ⟨f, hf, rfl⟩ := List.mem_map.1 h
  obtain ⟨hname, htype⟩ := Field.oneLine_of_mem (List.mem_filter.1 hf).1
  exact ⟨hname, htype, rfl⟩

theorem unbroken_ofSource? {settings : Settings} {source : String} {e : Extract}
    (h : ofSource? settings source = some e) : e.classifier.Unbroken := by
  obtain ⟨d, hd, rfl⟩ := Option.map_eq_some_iff.1 h
  have hname := Declaration.oneLine_name hd
  cases hk : d.kind with
  | classType =>
    exact ⟨hname, fun _ => Supertypes.oneLine_parent, nofun, fun _ => oneLine_attribute,
      fun _ => oneLine_method _⟩
  | enumType => exact ⟨hname, nofun, fun _ => d.oneLine_constants, nofun, nofun⟩
  | interfaceType =>
    exact ⟨hname, fun _ => Supertypes.oneLine_parent, nofun, nofun,
      fun _ => oneLine_method fun _ => .regular⟩

theorem oneLine_constructed {settings : Settings} {source : String} {e : Extract}
    (h : ofSource? settings source = some e) {name : String} (hname : name ∈ e.constructed) :
    OneLine name :=
  .of_class isNameChar (by decide +kernel) fun _ => isNameChar_of_mem_constructed h hname

end Extract

namespace Registry

/-- All texts that the registry keeps stand on one line, interface names apart. -/
structure Unbroken (r : Registry) : Prop where
  classifiers : ∀ c ∈ r.classifiers.values, c.Unbroken
  evidence : ∀ piece ∈ r.evidence, OneLine piece.owner ∧ OneLine piece.constructed

theorem unbroken_ofSources (settings : Settings) (sources : List String) :
    (ofSources settings sources).Unbroken := by
  have htold := told_ofSources settings sources
  constructor
  · intro c hc
    obtain ⟨e, ⟨source, -, he⟩, rfl⟩ := htold.classifiers c hc
    exact Extract.unbroken_ofSource? he
  · intro piece hpiece
    obtain ⟨e, ⟨source, -, he⟩, howner, hconstructed⟩ := htold.evidence piece hpiece
    rw [← howner]
    exact ⟨(Extract.unbroken_ofSource? he).name, Extract.oneLine_constructed he hconstructed⟩

end Registry

end ClassDiagram
