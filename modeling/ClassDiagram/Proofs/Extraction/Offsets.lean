import ClassDiagram.Proofs.Extraction.Units
import ClassDiagram.Proofs.Source.Offsets

/-!
# Extraction by offsets

The extraction of a classifier, with every slice, every counter and every search written out on
offsets: what one reading finds is passed on to the next as a number of bytes, and the text is cut
there. On every text this gives what is read from the characters, so no slice is out of bounds or
inside a character, no counter drops below zero and no search stands still (`read_faultless`).

Offsets travel a long way here: from the declaration to the search for signatures, from the first
signature to the part that declares the fields, and from a signature to the block of its body.
That they still fit is `Declaration.WellPlaced`.
-/

namespace ClassDiagram

open Text Source

/-! ## Where the readings stand -/

namespace Source

/-- A signature stands behind the offset at which the search begins, and its body, if there is one,
at a brace behind it. -/
theorem Signature.exists_of_mem_findAll {text : List Char} {least : Nat} {owner : String}
    {s : Signature} (h : s ∈ findAll text least owner) :
    ∃ u v, text = u ++ v ∧ least ≤ byteSize u ∧ s.start = .between u v ∧
      ∀ k, s.body? = some k → ∃ p w, v = p ++ '{' :: w ∧ k = .between (u ++ p) ('{' :: w) := by
  have hscan := (List.mem_filter.1 h).1
  rw [Cursor.ofText_eq] at hscan
  obtain ⟨u, v, next, rfl, hleast, hread⟩ := Cursor.exists_append_of_mem_scan hscan
  obtain ⟨stop, hstart, hstop, -, hbody, -⟩ := exists_of_at? hread
  obtain ⟨gap, v, rfl, hs⟩ := hstart.exists_between
  rw [hs] at hstop
  obtain ⟨p, w, -, rfl, rfl⟩ := hstop.exists_between
  refine ⟨u ++ gap, p ++ w, by simp, ?_, by simpa using hs, fun k hk => ?_⟩
  · rw [byteSize_append]
    exact Nat.le_add_right_of_le hleast
  · rw [hbody] at hk
    split at hk
    next hbrace =>
      cases hk
      obtain ⟨w', rfl⟩ := List.head?_eq_some_iff.1 (eq_of_beq hbrace)
      exact ⟨p, w', rfl, by simp⟩
    next => cases hk

/-- The offsets of a declaration and of the signatures behind it, as far as the text is cut at
them. -/
structure Declaration.WellPlaced (text : List Char) (d : Declaration) : Prop where
  /-- The name ends behind the start of the keyword. -/
  start_lt : d.start.offset < d.stop.offset
  /-- The name ends in the text. -/
  stop_le : d.stop.offset ≤ byteSize text
  /-- The part that declares the fields ends in the text, and not before it begins. -/
  ordered : ∀ s ∈ Signature.findAll text d.start.offset d.name,
    d.start.offset ≤ s.start.offset ∧ s.start.offset ≤ byteSize text
  /-- The body of a signature opens at a brace of the text. -/
  opens : ∀ s ∈ Signature.findAll text d.start.offset d.name, ∀ k, s.body? = some k →
    Cursor.atOffset? text k.offset = some k ∧ k.rest.head? = some '{'

theorem Declaration.wellPlaced {text : List Char} {d : Declaration} (hd : find? text = some d) :
    WellPlaced text d := by
  obtain ⟨u, p, w, hp, htext, hstart, hstop⟩ := exists_parts_of_find? hd
  have hpos := byteSize_pos hp
  constructor
  · rw [hstart, hstop, Cursor.offset_between, Cursor.offset_between, byteSize_append]
    omega
  · rw [hstop, htext, Cursor.offset_between, byteSize_append (u ++ p)]
    exact Nat.le_add_right _ _
  · intro s hs
    obtain ⟨u', v', rfl, hle, hstart', -⟩ := Signature.exists_of_mem_findAll hs
    rw [hstart', Cursor.offset_between, byteSize_append]
    exact ⟨hle, Nat.le_add_right _ _⟩
  · intro s hs k hk
    obtain ⟨u', v', rfl, -, -, hbody⟩ := Signature.exists_of_mem_findAll hs
    obtain ⟨p', w', rfl, rfl⟩ := hbody k hk
    refine ⟨?_, rfl⟩
    rw [← List.append_assoc]
    exact Cursor.atOffset?_append (u' ++ p') ('{' :: w')

end Source

/-! ## The parts of a class -/

namespace ByOffset

theorem mapM_eq {α β : Type} {f : α → Except Fault β} {g : α → β} {xs : List α}
    (h : ∀ x ∈ xs, f x = .ok (g x)) : xs.mapM f = .ok (xs.map g) := by
  induction xs with
  | nil => rfl
  | cons x xs ih =>
    obtain ⟨hx, hxs⟩ := List.forall_mem_cons.1 h
    simp [List.mapM_cons, hx, ih hxs]

/-- The signatures of the members, found by one search after the other. -/
def signatures (text : List Char) (d : Declaration) : Except Fault (List Signature) := do
  return (← scan Signature.at? text d.start.offset).filter (Signature.isMember d.name)

/-- The fields in a text, found by one search after the other. -/
def fields (text : List Char) : Except Fault (List Field) := do
  return (← scan Field.at? text 0).filterMap fun (modifiers, type, name) =>
    let name := String.ofList name
    if isReserved (String.ofList type) || isReserved name then none
    else some ⟨name, String.ofList (normalizeType type), Visibility.ofModifiers modifiers⟩

/-- The instantiated types in a text, found by one search after the other. -/
def instantiations (text : List Char) : Except Fault (List String) := do
  return (← scan Instantiation.at? text 0).map String.ofList

@[simp] theorem fields_eq (text : List Char) : fields text = .ok (Field.findAll text) := by
  have hscan := scan_ofText Field.progressive [] text
  rw [List.nil_append, byteSize_nil] at hscan
  rw [fields, hscan]
  rfl

@[simp] theorem instantiations_eq (text : List Char) :
    instantiations text = .ok (Instantiation.findAll text) := by
  have hscan := scan_ofText Instantiation.progressive [] text
  rw [List.nil_append, byteSize_nil] at hscan
  rw [instantiations, hscan]
  rfl

/-- The part of a class that declares its fields. -/
def fieldArea (text : List Char) (d : Declaration) (signatures : List Signature) :
    Except Fault (List Char) :=
  let stop :=
    match signatures with
    | [] => byteSize text
    | first :: _ => first.start.offset
  slice text d.start.offset (max stop d.start.offset)

/-- The fields of a class. -/
def attributes (text : List Char) (d : Declaration) (signatures : List Signature) :
    Except Fault (List Attribute) := do
  let found ← fields (← fieldArea text d signatures)
  return (found.filter fun f => f.name != d.name).map fun f =>
    Attribute.declare f.name f.type f.visibility

/-- The method of a signature. -/
def method (role : MethodRole) (s : Signature) : Except Fault Method := do
  return Method.declare s.name role s.visibility (← parameters s.parameters)

theorem method_eq (role : MethodRole) (s : Signature) :
    method role s = .ok (Extract.method role s) := by
  simp [method, Extract.method]

/-- The types that a signature's body constructs. -/
def constructedIn (settings : Settings) (text : List Char) (owner : String) (s : Signature) :
    Except Fault (List String) :=
  if Extract.roleOf settings owner s.name = .regular then return []
  else
    match s.body? with
    | none => return []
    | some k => do
      match ← block? text k.offset with
      | none => return []
      | some body => return (← instantiations body).filter fun type => !settings.isContainer type

theorem constructedIn_eq (settings : Settings) {text : List Char} {least : Nat} {owner : String}
    {s : Signature} (hs : s ∈ Signature.findAll text least owner) :
    constructedIn settings text owner s = .ok (Extract.constructedIn settings owner s) := by
  unfold constructedIn Extract.constructedIn
  split
  · rfl
  · cases hbody : s.body? with
    | none => rfl
    | some k =>
      obtain ⟨u, v, htext, -, -, hopens⟩ := Signature.exists_of_mem_findAll hs
      obtain ⟨p, w, rfl, rfl⟩ := hopens k hbody
      have hblock := block?_eq (u ++ p) ('{' :: w)
      rw [List.append_assoc, ← htext] at hblock
      simp only [Cursor.offset_between, hblock, ok_bind, Option.bind_some]
      cases Source.block? (.between (u ++ p) ('{' :: w)) <;> simp

section Declared

variable {text : List Char} {d : Declaration} (hd : Declaration.find? text = some d)

include hd

theorem signatures_eq :
    signatures text d = .ok (Signature.findAll text d.start.offset d.name) := by
  obtain ⟨u, p, w, -, rfl, hstart, -⟩ := Declaration.exists_parts_of_find? hd
  have hscan := scan_ofText Signature.progressive u (p ++ w)
  rw [signatures, hstart, Cursor.offset_between, List.append_assoc, hscan]
  rfl

theorem fieldArea_eq :
    fieldArea text d (Signature.findAll text d.start.offset d.name) =
      .ok (Extract.fieldArea d (Signature.findAll text d.start.offset d.name)) := by
  obtain ⟨u, p, w, -, htext, hstart, -⟩ := Declaration.exists_parts_of_find? hd
  rw [List.append_assoc] at htext
  have hmem : ∀ s ∈ Signature.findAll text d.start.offset d.name, ∃ u' v', text = u' ++ v' ∧
      d.start.offset ≤ byteSize u' ∧ s.start = .between u' v' := by
    intro s hs
    obtain ⟨u', v', h, hle, hs, -⟩ := Signature.exists_of_mem_findAll hs
    exact ⟨u', v', h, hle, hs⟩
  generalize Signature.findAll text d.start.offset d.name = found at hmem
  rw [hstart, Cursor.offset_between] at hmem
  unfold fieldArea Extract.fieldArea
  cases found with
  | nil =>
    have hle : byteSize u ≤ byteSize text := by
      rw [htext, byteSize_append]
      exact Nat.le_add_right _ _
    have hslice := sliceFrom_append u (p ++ w)
    rw [← htext] at hslice
    simpa [hstart, Nat.max_eq_left hle, sliceFrom] using hslice
  | cons first found =>
    obtain ⟨u', v', htext', hle, hfirst⟩ := hmem first List.mem_cons_self
    obtain ⟨q, rfl, hq⟩ := exists_append_of_byteSize_le (htext.symm.trans htext') hle
    have hslice := slice_append u q v'
    rw [← htext'] at hslice
    simp [hstart, hfirst, Nat.max_eq_left hle, hslice, hq, Cursor.upTo_between]

theorem attributes_eq :
    attributes text d (Signature.findAll text d.start.offset d.name) =
      .ok (Extract.attributes d (Signature.findAll text d.start.offset d.name)) := by
  simp [attributes, fieldArea_eq hd, Extract.attributes]

end Declared

/-! ## Classifiers -/

/-- The interface of a declaration. -/
def interface (text : List Char) (d : Declaration) : Except Fault Classifier := do
  let typeParameters ← typeParameters text d
  let supertypes ← supertypes (← header text d)
  let methods ← (← signatures text d).mapM (method .regular)
  return { Classifier.empty d.name .interfaceType with
    typeParameters, parent? := supertypes.parent?, methods }

/-- The class of a declaration, and what it constructs. -/
def ofClass (settings : Settings) (text : List Char) (d : Declaration) : Except Fault Extract := do
  let supertypes ← supertypes (← header text d)
  let typeParameters ← typeParameters text d
  let signatures ← signatures text d
  let attributes ← attributes text d signatures
  let methods ← signatures.mapM fun s => method (Extract.roleOf settings d.name s.name) s
  let constructed ← signatures.mapM (constructedIn settings text d.name)
  return {
    classifier :=
      { Classifier.empty d.name .classType with
        typeParameters, parent? := supertypes.parent?, interfaces := supertypes.interfaces,
        attributes, methods }
    constructed := constructed.flatten }

/-- What a text tells about its declaration. -/
def extract (settings : Settings) (text : List Char) (d : Declaration) : Except Fault Extract :=
  match d.kind with
  | .classType => ofClass settings text d
  | .enumType => do
    return ⟨{ Classifier.empty d.name .enumType with constants := ← constants text d }, []⟩
  | .interfaceType => do return ⟨← interface text d, []⟩

/-- Reads a source text into the registry, if it declares a new name. -/
def read (settings : Settings) (r : Registry) (source : String) : Except Fault Registry :=
  let text := stripNoise source.toList
  match Declaration.find? text with
  | none => return r
  | some d =>
    if r.declares d.name then return r
    else do
      let e ← extract settings text d
      return e.constructed.foldl (fun r type => (r.record e.classifier.name type).2)
        (r.declare e.classifier).2

section Declared

variable {text : List Char} {d : Declaration} (hd : Declaration.find? text = some d)

include hd

theorem interface_eq : interface text d = .ok (Extract.interface text d) := by
  have hmethods := mapM_eq fun s (_ : s ∈ Signature.findAll text d.start.offset d.name) =>
    method_eq .regular s
  simp [interface, typeParameters_eq hd, header_eq hd, signatures_eq hd, hmethods,
    Extract.interface]

theorem ofClass_eq (settings : Settings) :
    ofClass settings text d = .ok (Extract.ofClass settings text d) := by
  have hmethods := mapM_eq fun s (_ : s ∈ Signature.findAll text d.start.offset d.name) =>
    method_eq (Extract.roleOf settings d.name s.name) s
  have hconstructed := mapM_eq fun s (hs : s ∈ Signature.findAll text d.start.offset d.name) =>
    constructedIn_eq settings hs
  simp [ofClass, typeParameters_eq hd, header_eq hd, signatures_eq hd, attributes_eq hd, hmethods,
    hconstructed, Extract.ofClass, List.flatMap_def]

end Declared

theorem extract_eq (settings : Settings) {source : String} {d : Declaration}
    (hd : Declaration.find? (stripNoise source.toList) = some d) :
    ∃ e, Extract.ofSource? settings source = some e ∧ e.classifier.name = d.name ∧
      extract settings (stripNoise source.toList) d = .ok e := by
  cases hk : d.kind with
  | classType =>
    refine ⟨Extract.ofClass settings (stripNoise source.toList) d, ?_, rfl, ?_⟩
    · simp [Extract.ofSource?, hd, hk]
    · simp [extract, hk, ofClass_eq hd]
  | enumType =>
    refine ⟨⟨Extract.enumeration d, []⟩, ?_, rfl, ?_⟩
    · simp [Extract.ofSource?, hd, hk]
    · simp [extract, hk, constants_eq hd, Extract.enumeration]
  | interfaceType =>
    refine ⟨⟨Extract.interface (stripNoise source.toList) d, []⟩, ?_, rfl, ?_⟩
    · simp [Extract.ofSource?, hd, hk]
    · simp [extract, hk, interface_eq hd]

theorem read_eq (settings : Settings) (r : Registry) (source : String) :
    read settings r source = .ok (r.read settings source) := by
  unfold read Registry.read
  cases hd : Declaration.find? (stripNoise source.toList) with
  | none => simp [Extract.ofSource?, hd]
  | some d =>
    obtain ⟨e, he, hname, hextract⟩ := extract_eq settings hd
    simp only [hd, he, Registry.enroll, hname, hextract, ok_bind, pure_eq]
    split <;> rfl

end ByOffset

namespace Registry

/-- A source that declares nothing new leaves the registry as it is. -/
theorem read_of_declared {settings : Settings} {r : Registry} {source : String}
    (h : ∀ d, Declaration.find? (stripNoise source.toList) = some d → r.declares d.name = true) :
    r.read settings source = r := by
  unfold read
  cases hd : Declaration.find? (stripNoise source.toList) with
  | none => simp [Extract.ofSource?, hd]
  | some d =>
    obtain ⟨e, he, hname, -⟩ := ByOffset.extract_eq settings hd
    rw [he]
    exact enroll_of_declared (hname ▸ h d hd)

/-- **Extraction cannot fail.** For all settings, registries and source texts: read by offsets, with
every slice, counter and search checked, the text gives the same registry and no fault; the
declaration and its signatures are placed as the slices need it; and a text that declares nothing,
or nothing new, leaves the registry as it is. -/
theorem read_faultless (settings : Settings) (r : Registry) (source : String) :
    ByOffset.read settings r source = .ok (r.read settings source) ∧
      (∀ d, Declaration.find? (stripNoise source.toList) = some d →
        d.WellPlaced (stripNoise source.toList)) ∧
      ((∀ d, Declaration.find? (stripNoise source.toList) = some d → r.declares d.name = true) →
        r.read settings source = r) :=
  ⟨ByOffset.read_eq settings r source, fun _ => Declaration.wellPlaced, read_of_declared⟩

/-- A text with stray braces, an open quote and characters of several bytes: a name is declared in
it, and declared before. -/
theorem read_faultless_garbled :
    let source := "é\x7d \"class Ledger<ä \x7bLedger(ö)\x7b '€\x7d"
    let r := (empty.declare (Classifier.empty "Ledger" .classType)).2
    (Declaration.find? (stripNoise source.toList)).map (fun d => (d.name, d.start.offset)) =
        some ("Ledger", 5) ∧
      r.read .default source = r ∧ ByOffset.read .default r source = .ok r := by
  intro source r
  have hfind : (Declaration.find? (stripNoise source.toList)).map
      (fun d => (d.name, d.start.offset)) = some ("Ledger", 5) := by decide +kernel
  obtain ⟨hread, -, hsame⟩ := read_faultless .default r source
  have hdeclared : r.read .default source = r := by
    apply hsame
    intro d hd
    rw [hd] at hfind
    obtain ⟨hname, -⟩ := Prod.mk.inj (Option.some.inj hfind)
    rw [hname]
    decide +kernel
  exact ⟨hfind, hdeclared, hread.trans (congrArg _ hdeclared)⟩

end Registry

end ClassDiagram
