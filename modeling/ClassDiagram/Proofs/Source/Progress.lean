import Mathlib.Data.Option.Basic
import ClassDiagram.Proofs.Text.Progress
import ClassDiagram.Source.Field
import ClassDiagram.Source.Instantiation
import ClassDiagram.Source.Signature

/-!
# Progress of the readings of a source

Every reading of a source leads forward in its text. A declaration begins in front of its name. A
member begins no earlier than the search for it, and what is read of it ends strictly later, at a
brace or semicolon; there the search resumes. So the searches for signatures, fields and
instantiations are progressive.
-/

namespace ClassDiagram.Source

open Text

/-! ## Names and declarations -/

theorem reaches_of_name? {k k' : Cursor} {name : List Char} (h : name? k = some (name, k')) :
    k.Reaches k' := by
  unfold name? at h
  split at h
  · split at h
    · cases h
      exact .skipWhile isNameChar k
    · cases h
  · cases h

theorem Declaration.advances_of_at? {kinds : List ClassifierKind} {k : Cursor} {d : Declaration}
    (h : at? kinds k = some d) : d.start = k ∧ k.Advances d.stop := by
  simp only [at?, Option.bind_eq_bind, Option.bind_eq_some_iff] at h
  obtain ⟨-, -, h⟩ := h
  obtain ⟨kind, -, hread⟩ := List.exists_of_findSome?_eq_some h
  simp only [Option.bind_eq_some_iff] at hread
  obtain ⟨k₁, hkeyword, k₂, hblank, ⟨name, stop⟩, hname, heq⟩ := hread
  cases heq
  refine ⟨rfl, ?_⟩
  exact ((Cursor.Reaches.token? hkeyword).trans_advances (.skipSome? hblank)).trans_reaches
    (reaches_of_name? hname)

/-- The declaration of a text stands in it, with the name behind the keyword. -/
theorem Declaration.exists_parts_of_find? {text : List Char} {d : Declaration}
    (h : find? text = some d) :
    ∃ u p w, p ≠ [] ∧ text = u ++ p ++ w ∧ d.start = .between u (p ++ w) ∧
      d.stop = .between (u ++ p) w := by
  have hfound : ∃ kinds, (Cursor.ofText text).find? (at? kinds) = some d := by
    rcases Option.or_eq_some_iff.1 h with h | ⟨-, h⟩
    · exact ⟨_, h⟩
    · exact ⟨_, h⟩
  obtain ⟨kinds, hfind⟩ := hfound
  rw [Cursor.ofText_eq] at hfind
  obtain ⟨u, v, rfl, hread⟩ := Cursor.exists_append_of_find? hfind
  obtain ⟨hstart, hadvances⟩ := advances_of_at? hread
  obtain ⟨p, w, hp, rfl, hstop⟩ := hadvances.exists_between
  exact ⟨u, p, w, hp, by simp, hstart, hstop⟩

/-! ## Members -/

namespace Member

theorem reaches_of_mem_starts {k k' : Cursor} (h : k' ∈ starts k) : k.Reaches k' := by
  have hcases : k' = k ∨ ∃ c cs, k.rest = c :: cs ∧ k' = k.past [c] cs := by
    unfold starts at h
    cases hrest : k.rest <;> grind
  rcases hcases with rfl | ⟨c, cs, hrest, rfl⟩
  · exact .refl k'
  · exact ⟨[c], cs, hrest, rfl⟩

theorem reaches_of_annotationArguments? {k k' : Cursor} (h : annotationArguments? k = some k') :
    k.Reaches k' := by
  obtain ⟨k₁, hopening, hclosing⟩ := Option.bind_eq_some_iff.1 h
  exact ((Cursor.Reaches.token? hopening).trans (.skipWhile _ k₁)).trans
    (.token? hclosing)

theorem reaches_of_annotation? {k k' : Cursor} (h : annotation? k = some k') : k.Reaches k' := by
  simp only [annotation?, Option.bind_eq_bind, Option.bind_eq_some_iff] at h
  obtain ⟨k₁, hat, k₂, hname, hblank⟩ := h
  exact (((Cursor.Reaches.token? hat).trans (Cursor.Advances.skipSome? hname).1).trans
    (.getD fun _ => reaches_of_annotationArguments?)).trans (Cursor.Advances.skipSome? hblank).1

theorem reaches_of_modifier? {modifiers : List String} {k k' : Cursor}
    (h : modifier? modifiers k = some k') : k.Reaches k' := by
  obtain ⟨word, -, hread⟩ := List.exists_of_findSome?_eq_some h
  obtain ⟨k₁, hword, hblank⟩ := Option.bind_eq_some_iff.1 hread
  exact (Cursor.Reaches.token? hword).trans (Cursor.Advances.skipSome? hblank).1

/-- The modifiers begin no earlier than the member, and the rest is read behind them. -/
theorem reaches_of_at? {α : Type} {modifiers : List String} {rest? : Cursor → Option α}
    {k : Cursor} {reading : Reading α} (h : at? modifiers rest? k = some reading) :
    k.Reaches reading.start ∧ reading.start.Reaches reading.stop ∧
      rest? reading.stop = some reading.rest := by
  obtain ⟨first, hfirst, hstart⟩ := List.exists_of_findSome?_eq_some h
  obtain ⟨stop, hstop, hread⟩ := List.exists_of_findSome?_eq_some hstart
  obtain ⟨rest, hrest, rfl⟩ := Option.map_eq_some_iff.1 hread
  refine ⟨?_, ?_, hrest⟩
  · exact ((reaches_of_mem_starts hfirst).trans (.skipWhile isBlank first)).trans
      (.repeatedly (fun _ _ => reaches_of_annotation?) _)
  · exact .of_mem_iterates (fun _ _ => reaches_of_modifier?) (List.mem_reverse.1 hstop)

theorem front_throughLast (last : Char) (cs : List Char) : throughLast last cs <+: cs := by
  have hsuffix := List.dropWhile_suffix (l := cs.reverse) (· != last)
  rw [← List.reverse_prefix, List.reverse_reverse] at hsuffix
  exact hsuffix

/-- Passing the longest leading part of a class of characters that ends with a certain one. -/
theorem reaches_throughLast (last : Char) (p : Char → Bool) (k : Cursor) :
    k.Reaches (k.past (throughLast last (k.rest.takeWhile p))
      (k.rest.drop (throughLast last (k.rest.takeWhile p)).length)) :=
  .of_front ((front_throughLast last _).trans (List.takeWhile_prefix p))

theorem reaches_of_typeArguments? {k k' : Cursor} (h : typeArguments? k = some k') :
    k.Reaches k' := by
  obtain ⟨k₁, hopening, hinner⟩ := Option.bind_eq_some_iff.1 h
  refine ((Cursor.Reaches.skipWhile isBlank k).trans (Cursor.Reaches.token? hopening)).trans ?_
  split at hinner
  · cases hinner
  · cases hinner
    exact reaches_throughLast '>' isArgumentChar k₁

theorem reaches_of_brackets? {k k' : Cursor} (h : brackets? k = some k') : k.Reaches k' :=
  (Cursor.Reaches.skipWhile isBlank k).trans (.token? h)

theorem reaches_of_typeText? {k k' : Cursor} (h : typeText? k = some k') : k.Reaches k' := by
  simp only [typeText?, Option.bind_eq_bind, Option.bind_eq_some_iff] at h
  obtain ⟨k₁, hname, heq⟩ := h
  cases heq
  exact ((Cursor.Advances.skipSome? hname).1.trans (.getD fun _ => reaches_of_typeArguments?)).trans
    (.repeatedly (fun _ _ => reaches_of_brackets?) _)

end Member

/-! ## Signatures -/

namespace Signature

theorem reaches_of_throwsClause? {k k' : Cursor} (h : throwsClause? k = some k') :
    k.Reaches k' := by
  obtain ⟨k₁, hword, hnames⟩ := Option.bind_eq_some_iff.1 h
  refine (Cursor.Reaches.token? hword).trans ?_
  split at hnames
  · split at hnames
    · cases hnames
      exact .skipWhile isThrowsChar k₁
    · cases hnames
  · cases hnames

theorem advances_of_named? {returnType? : Option (List Char)} {k : Cursor} {tail : Tail}
    (h : named? returnType? k = some tail) : k.Advances tail.stop := by
  simp only [named?, Option.bind_eq_bind, Option.bind_eq_some_iff] at h
  obtain ⟨⟨name, k₁⟩, hname, k₂, hopening, k₃, hclosing, -, -, heq⟩ := h
  cases heq
  have hbefore : k.Reaches (k₁.skipWhile isBlank) := (reaches_of_name? hname).trans (.skipWhile _ _)
  have hbehind : k₂.Reaches (k₃.skipWhile isBlank) :=
    ((Cursor.Reaches.skipWhile _ k₂).trans (.token? hclosing)).trans (.skipWhile _ k₃)
  exact ((hbefore.trans_advances (.token? (by decide) hopening)).trans_reaches hbehind).trans_reaches
    (.getD fun _ => reaches_of_throwsClause?)

theorem advances_of_typed? {k : Cursor} {tail : Tail} (h : typed? k = some tail) :
    k.Advances tail.stop := by
  simp only [typed?, Option.bind_eq_bind, Option.bind_eq_some_iff] at h
  obtain ⟨k₁, htype, k₂, hblank, hnamed⟩ := h
  exact (Member.reaches_of_typeText? htype).trans_advances
    ((Cursor.Advances.skipSome? hblank).1.trans_advances (advances_of_named? hnamed))

/-- A brace or semicolon ends a signature. -/
theorem head?_stop_of_named? {returnType? : Option (List Char)} {k : Cursor} {tail : Tail}
    (h : named? returnType? k = some tail) :
    tail.stop.rest.head? = some '{' ∨ tail.stop.rest.head? = some ';' := by
  simp only [named?, Option.bind_eq_bind, Option.bind_eq_some_iff] at h
  obtain ⟨⟨name, k₁⟩, -, k₂, -, k₃, -, ⟨⟩, hend, heq⟩ := h
  cases heq
  simpa using hend

theorem head?_stop_of_typed? {k : Cursor} {tail : Tail} (h : typed? k = some tail) :
    tail.stop.rest.head? = some '{' ∨ tail.stop.rest.head? = some ';' := by
  simp only [typed?, Option.bind_eq_bind, Option.bind_eq_some_iff] at h
  obtain ⟨k₁, -, k₂, -, hnamed⟩ := h
  exact head?_stop_of_named? hnamed

/-- A signature begins where it is searched for or later, and ends behind its start, with its body
if there is one. -/
theorem exists_of_at? {k : Cursor} {s : Signature} {next : Nat} (h : at? k = some (s, next)) :
    ∃ stop, k.Reaches s.start ∧ s.start.Advances stop ∧ next = stop.offset ∧
      (s.body? = if stop.rest.head? == some '{' then some stop else none) ∧
      (stop.rest.head? = some '{' ∨ stop.rest.head? = some ';') := by
  obtain ⟨reading, hmember, heq⟩ := Option.map_eq_some_iff.1 h
  obtain ⟨hstart, hmodifiers, hrest⟩ := Member.reaches_of_at? hmember
  cases heq
  have htail : reading.stop.Advances reading.rest.stop ∧
      (reading.rest.stop.rest.head? = some '{' ∨ reading.rest.stop.rest.head? = some ';') := by
    rcases Option.or_eq_some_iff.1 hrest with htyped | ⟨-, hnamed⟩
    · exact ⟨advances_of_typed? htyped, head?_stop_of_typed? htyped⟩
    · exact ⟨advances_of_named? hnamed, head?_stop_of_named? hnamed⟩
  exact ⟨reading.rest.stop, hstart, hmodifiers.trans_advances htail.1, rfl, rfl, htail.2⟩

theorem progressive : Cursor.Progressive at? := by
  intro k s next h
  obtain ⟨stop, hstart, hstop, hnext, -⟩ := exists_of_at? h
  exact ⟨stop, hstart.trans_advances hstop, hnext⟩

end Signature

/-! ## Fields -/

namespace Field

theorem reaches_of_initialValue? {k k' : Cursor} (h : initialValue? k = some k') :
    k.Reaches k' := by
  obtain ⟨k₁, hassign, rfl⟩ := Option.map_eq_some_iff.1 h
  exact (Cursor.Reaches.token? hassign).trans (.skipWhile _ k₁)

theorem advances_of_rest? {k semicolon : Cursor} {type name : List Char}
    (h : rest? k = some (type, name, semicolon)) : k.Advances semicolon := by
  simp only [rest?, Option.bind_eq_bind, Option.bind_eq_some_iff] at h
  obtain ⟨k₁, htype, k₂, hblank, ⟨name', k₃⟩, hname, -, -, heq⟩ := h
  cases heq
  have hbehind : k₂.Reaches (k₃.skipWhile isBlank) := (reaches_of_name? hname).trans (.skipWhile _ k₃)
  exact (((Member.reaches_of_typeText? htype).trans_advances (.skipSome? hblank)).trans_reaches
    hbehind).trans_reaches (.getD fun _ => reaches_of_initialValue?)

theorem progressive : Cursor.Progressive at? := by
  intro k found next h
  obtain ⟨⟨start, stop, type, name, semicolon⟩, hmember, heq⟩ := Option.map_eq_some_iff.1 h
  obtain ⟨hstart, hmodifiers, hrest⟩ := Member.reaches_of_at? hmember
  cases heq
  exact ⟨semicolon, (hstart.trans hmodifiers).trans_advances (advances_of_rest? hrest), rfl⟩

end Field

/-! ## Instantiations -/

namespace Instantiation

theorem reaches_of_typeArguments? {k k' : Cursor} (h : typeArguments? k = some k') :
    k.Reaches k' := by
  obtain ⟨k₁, hopening, hinner⟩ := Option.bind_eq_some_iff.1 h
  refine (Cursor.Reaches.token? hopening).trans ?_
  simp only at hinner
  split at hinner
  · cases hinner
  · cases hinner
    exact Member.reaches_throughLast '>' _ k₁

theorem progressive : Cursor.Progressive at? := by
  intro k type next h
  simp only [at?, Option.bind_eq_bind, Option.bind_eq_some_iff] at h
  obtain ⟨k₁, htarget, k₂, hassign, k₃, hnew, k₄, hblank, ⟨type', k₅⟩, hname, k₆, hopening, heq⟩ := h
  cases heq
  have hword : k₁.Reaches k₄ :=
    ((((Cursor.Reaches.skipWhile _ k₁).trans (.token? hassign)).trans (.skipWhile _ k₂)).trans
      (.token? hnew)).trans (Cursor.Advances.skipSome? hblank).1
  have hbehind : k₄.Reaches k₆ :=
    ((((reaches_of_name? hname).trans (.skipWhile _ k₅)).trans
      (.getD fun _ => reaches_of_typeArguments?)).trans (.skipWhile _ _)).trans (.token? hopening)
  exact ⟨k₆, ((Cursor.Advances.skipSome? htarget).trans_reaches hword).trans_reaches hbehind, rfl⟩

end Instantiation

end ClassDiagram.Source
