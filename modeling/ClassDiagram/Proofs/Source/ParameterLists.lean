import ClassDiagram.Proofs.Text.Nesting
import ClassDiagram.Proofs.TypeExpr.Normalized
import ClassDiagram.Proofs.TypeExpr.Written

/-!
# Reading a written parameter list

A written parameter is a row of words: annotations and `final`, a type, and a name with a blank in
front of each but the first. A type with several arguments holds blanks itself, so reading cuts it
into several words; but every blank in it stands behind a comma, and taking the words together and
writing them without blanks gives the type back (`normalizeType_words`). None of these words is
dropped: those in front of a blank end with a comma, and the last one ends with a bracket
(`isKept_of_mem_words`). Angle brackets keep the commas of a type from separating parameters
(`enclosed_render`).
-/

namespace ClassDiagram.TypeExpr

open Text Source

/-! ## The text of a type -/

/-- The arguments of a written type, with their angle brackets. -/
def argumentText : List TypeExpr → List Char
  | [] => []
  | first :: rest => '<' :: (first.render.toList ++ (renderRest rest).toList ++ ['>'])

theorem toList_render (t : TypeExpr) :
    t.render.toList =
      t.name.toList ++ (argumentText t.arguments ++ (renderDimensions t.dimensions).toList) := by
  obtain ⟨name, arguments, dimensions⟩ := t
  cases arguments <;> simp [render, argumentText]

theorem toList_renderDimensions_succ (n : Nat) :
    (renderDimensions (n + 1)).toList = '[' :: ']' :: (renderDimensions n).toList := by
  rw [renderDimensions, String.toList_append]
  rfl

theorem toList_renderDimensions_add (m n : Nat) :
    (renderDimensions (m + n)).toList =
      (renderDimensions m).toList ++ (renderDimensions n).toList := by
  induction m with
  | zero => rw [Nat.zero_add, renderDimensions, String.toList_empty, List.nil_append]
  | succ m ih =>
    rw [Nat.succ_add, toList_renderDimensions_succ, toList_renderDimensions_succ, ih]
    rfl

theorem eq_bracket_of_mem {c : Char} {n : Nat} (h : c ∈ (renderDimensions n).toList) :
    c = '[' ∨ c = ']' := by
  induction n with
  | zero => cases h
  | succ n ih =>
    rw [toList_renderDimensions_succ, List.mem_cons, List.mem_cons] at h
    rcases h with h | h | h
    · exact .inl h
    · exact .inr h
    · exact ih h

theorem WellFormed.name {t : TypeExpr} (h : t.WellFormed) : IsTypeName t.name.toList := by
  cases h with
  | mk hname _ => exact hname

theorem WellFormed.withDimensions {t : TypeExpr} (h : t.WellFormed) (n : Nat) :
    WellFormed { t with dimensions := n } := by
  cases h with
  | mk hname harguments => exact .mk hname harguments

/-- A property of texts that the parts of a written type have and that is kept when they are put
together. -/
structure PartsHave (P : List Char → Prop) : Prop where
  nil : P []
  append : ∀ {cs ds}, P cs → P ds → P (cs ++ ds)
  name : ∀ {cs}, IsTypeName cs → P cs
  mark : P ['?']
  comma : P [',', ' ']
  brackets : P ['[', ']']
  angles : ∀ {cs}, P cs → P ('<' :: (cs ++ ['>']))

namespace PartsHave

variable {P : List Char → Prop} (h : PartsHave P)

include h

theorem dimensions (n : Nat) : P (renderDimensions n).toList := by
  induction n with
  | zero => exact h.nil
  | succ n ih =>
    rw [renderDimensions, String.toList_append]
    exact h.append h.brackets ih

theorem renderRest {ts : List TypeExpr} (hts : ∀ t ∈ ts, P t.render.toList) :
    P (TypeExpr.renderRest ts).toList := by
  induction ts with
  | nil => exact h.nil
  | cons t ts ih =>
    obtain ⟨ht, hts⟩ := List.forall_mem_cons.1 hts
    rw [TypeExpr.renderRest, String.toList_append, String.toList_append]
    exact h.append (h.append h.comma ht) (ih hts)

theorem list {t : TypeExpr} {ts : List TypeExpr} (hts : ∀ u ∈ t :: ts, P u.render.toList) :
    P (t.render.toList ++ (TypeExpr.renderRest ts).toList) := by
  obtain ⟨ht, hts⟩ := List.forall_mem_cons.1 hts
  exact h.append ht (h.renderRest hts)

theorem argument {t : TypeExpr} (ht : t ≠ wildcard → P t.render.toList) : P t.render.toList := by
  by_cases hmark : t = wildcard
  · rw [hmark]
    exact h.mark
  · exact ht hmark

theorem render {t : TypeExpr} (ht : t.WellFormed) : P t.render.toList := by
  induction ht with
  | @mk name arguments dimensions hname _ ih =>
    rw [toList_render]
    refine h.append (h.name hname) (h.append ?_ (h.dimensions _))
    cases arguments with
    | nil => exact h.nil
    | cons first rest => exact h.angles (h.list fun t ht => h.argument (ih t ht))

end PartsHave

theorem isPlain_of_isTypeNameChar {c : Char} (h : isTypeNameChar c = true) : isPlain c = true :=
  isPlain_of_class (p := isTypeNameChar) (by decide +kernel) h

theorem partsHave_nested : PartsHave fun cs => nested typeBrackets cs = true where
  nil := rfl
  append := nested_append
  name h := nested_of_free fun c hc => by
    have hplain := isPlain_of_isTypeNameChar (h.chars c hc)
    simp only [isPlain, Bool.and_eq_true, Bool.not_eq_true'] at hplain
    exact ⟨hplain.1.2, hplain.2⟩
  mark := rfl
  comma := rfl
  brackets := rfl
  angles := nested_group (by decide)

theorem partsHave_withoutBlanks : PartsHave fun cs => withoutBlanks cs = cs where
  nil := rfl
  append hcs hds := by rw [withoutBlanks_append, hcs, hds]
  name := IsTypeName.withoutBlanks
  mark := by decide
  comma := by decide
  brackets := by decide
  angles {cs} hcs := by
    have hangle : withoutBlanks ['>'] = ['>'] := by decide
    rw [withoutBlanks_cons (by decide) (by decide), withoutBlanks_append, hcs, hangle]

theorem partsHave_noMark : PartsHave fun cs => '@' ∉ cs where
  nil := by simp
  append hcs hds := by simp [hcs, hds]
  name h hmem := absurd (h.chars '@' hmem) (by decide +kernel)
  mark := by decide
  comma := by decide
  brackets := by decide
  angles hcs := by simp [hcs]

/-- A written type is its name, or it ends with a bracket. -/
theorem render_eq_name_or_last (t : TypeExpr) :
    t.render.toList = t.name.toList ∨
      ∃ front c, t.render.toList = front ++ [c] ∧ (c = '>' ∨ c = ']') := by
  rw [toList_render]
  rcases (brackets_renderDimensions t.dimensions).eq_nil_or_last with ⟨hnone, -⟩ | ⟨front, hlast⟩
  · rw [hnone]
    cases ht : t.arguments with
    | nil => simp [argumentText]
    | cons first rest =>
      refine .inr ⟨t.name.toList ++ '<' :: (first.render.toList ++ (renderRest rest).toList), '>',
        ?_, .inl rfl⟩
      simp [argumentText]
  · refine .inr ⟨t.name.toList ++ (argumentText t.arguments ++ front), ']', ?_, .inr rfl⟩
    simp [hlast]

end ClassDiagram.TypeExpr

namespace ClassDiagram.Text

open Source

/-! ## The words of a text -/

theorem flatten_wordsFrom (held cs : List Char) :
    (wordsFrom held cs).flatten = held.reverse ++ cs.filter (!isBlank ·) := by
  induction cs generalizing held with
  | nil => cases held <;> simp [wordsFrom]
  | cons c cs ih =>
    cases hc : isBlank c <;> cases held <;> simp [wordsFrom, hc, ih]

theorem flatten_words (cs : List Char) : (words cs).flatten = cs.filter (!isBlank ·) := by
  simpa [words] using flatten_wordsFrom [] cs

theorem withoutBlanks_filter (cs : List Char) :
    withoutBlanks (cs.filter (!isBlank ·)) = withoutBlanks cs := by
  induction cs with
  | nil => rfl
  | cons c cs ih =>
    cases hc : isBlank c <;> simp [withoutBlanks, hc, ih]

/-- A text may be cut into words before it is written without blanks. -/
theorem normalizeType_words (cs : List Char) :
    normalizeType (words cs).flatten = normalizeType cs := by
  rw [flatten_words, normalizeType, withoutBlanks_filter, normalizeType]

theorem words_intercalate (ts : List (List Char)) :
    words (List.intercalate [' '] ts) = ts.flatMap words := by
  induction ts with
  | nil => rfl
  | cons t ts ih =>
    cases ts with
    | nil => simp
    | cons t' ts =>
      rw [List.intercalate_cons_cons, List.append_assoc, List.singleton_append,
        words_append t (by decide), ih]
      rfl

theorem exists_of_mem_wordsFrom {held cs w : List Char} (h : w ∈ wordsFrom held cs) :
    ∃ u v, held.reverse ++ cs = u ++ (w ++ v) ∧ Stops (!isBlank ·) v := by
  induction cs generalizing held with
  | nil =>
    cases held with
    | nil => cases h
    | cons d held =>
      obtain rfl : w = (d :: held).reverse := List.mem_singleton.1 h
      exact ⟨[], [], by simp, stops_nil⟩
  | cons c cs ih =>
    cases hc : isBlank c with
    | true =>
      have hbehind : ∀ held : List Char, w ∈ wordsFrom [] cs →
          ∃ u v, held.reverse ++ c :: cs = u ++ (w ++ v) ∧ Stops (!isBlank ·) v := by
        intro held hmem
        obtain ⟨u, v, huv, hv⟩ := ih hmem
        refine ⟨held.reverse ++ c :: u, v, ?_, hv⟩
        rw [List.append_assoc, List.cons_append, ← huv]
        rfl
      by_cases hheld : held = []
      · subst hheld
        exact hbehind [] (by simpa [wordsFrom, hc] using h)
      · rw [wordsFrom_blank cs hheld hc] at h
        rcases List.mem_cons.1 h with rfl | hmem
        · exact ⟨[], c :: cs, by simp, by simp [hc]⟩
        · exact hbehind held hmem
    | false =>
      have hgrow : wordsFrom held (c :: cs) = wordsFrom (c :: held) cs :=
        wordsFrom_append held (v := [c]) cs (by simpa using hc)
      rw [hgrow] at h
      obtain ⟨u, v, huv, hv⟩ := ih h
      exact ⟨u, v, by simpa using huv, hv⟩

/-- A word ends where the text ends or a blank follows. -/
theorem exists_of_mem_words {cs w : List Char} (h : w ∈ words cs) :
    ∃ u v, cs = u ++ (w ++ v) ∧ Stops (!isBlank ·) v :=
  exists_of_mem_wordsFrom h

/-! ## Texts without top-level commas -/

namespace Enclosed

theorem intercalate {ts : List (List Char)} (h : ∀ t ∈ ts, Enclosed t) :
    Enclosed (List.intercalate [' '] ts) := by
  induction ts with
  | nil => exact .plain (by simp)
  | cons t ts ih =>
    obtain ⟨ht, hts⟩ := List.forall_mem_cons.1 h
    cases ts with
    | nil => simpa using ht
    | cons t' ts =>
      rw [List.intercalate_cons_cons]
      exact (ht.append (.plain (List.all_eq_true.1 rfl))).append (ih hts)

end Enclosed

/-! ## Texts written without blanks -/

theorem stops_withoutBlanks (cs : List Char) : Stops isBlank (withoutBlanks cs) := by
  induction cs with
  | nil => exact stops_nil
  | cons c cs ih =>
    rw [withoutBlanks]
    split
    · exact ih
    next hc =>
      split
      · exact stops_cons.2 (by decide)
      · exact stops_cons.2 (Bool.eq_false_iff.2 hc)

/-- The blanks that are written stand behind commas. -/
theorem comma_of_withoutBlanks {cs u v : List Char} {d b : Char}
    (h : withoutBlanks cs = u ++ d :: b :: v) (hb : isBlank b = true) : d = ',' := by
  -- what is written for the rest of the text does not start with the blank
  have hstart : ∀ cs v, withoutBlanks cs ≠ b :: v := by
    intro cs v heq
    have hnone := stops_withoutBlanks cs
    rw [heq, stops_cons, hb] at hnone
    cases hnone
  induction cs generalizing u with
  | nil => simp [withoutBlanks] at h
  | cons c cs ih =>
    rw [withoutBlanks] at h
    split at h
    · exact ih h
    · split at h
      · rcases u with _ | ⟨_, _ | ⟨_, u⟩⟩
        · exact (List.cons.inj h).1.symm
        · exact absurd (List.cons.inj (List.cons.inj h).2).2 (hstart cs v)
        · exact ih (List.cons.inj (List.cons.inj h).2).2
      · rcases u with _ | ⟨_, u⟩
        · exact absurd (List.cons.inj h).2 (hstart cs v)
        · exact ih (List.cons.inj h).2

end ClassDiagram.Text

namespace ClassDiagram.Source

open Text TypeExpr

/-! ## Written parameters -/

/-- A character of an identifier, be it in a declaration or inside a type. -/
def isIdentifierChar (c : Char) : Bool := isNameChar c || isTypeParameterChar c

structure IsIdentifier (cs : List Char) : Prop where
  ne_nil : cs ≠ []
  chars : ∀ c ∈ cs, isIdentifierChar c = true

/-- An annotation without arguments: its possibly qualified name behind the mark. -/
def IsAnnotation (cs : List Char) : Prop :=
  ∃ path, cs = '@' :: path ∧ ∀ c ∈ path, isIdentifierChar c = true ∨ c = '.'

/-- Segments of letters, digits, `_` and `$`, none of them empty, with dots between them. -/
def IsQualifiedName (cs : List Char) : Prop :=
  ∃ segments : List (List Char), segments ≠ [] ∧
    (∀ s ∈ segments, s ≠ [] ∧ ∀ c ∈ s, isTypeParameterChar c = true) ∧
    cs = List.intercalate ['.'] segments

/-- All names of the type are qualified names, except in arguments that are the wildcard. -/
inductive IsQualified : TypeExpr → Prop
  | mk {name : String} {arguments : List TypeExpr} {dimensions : Nat}
      (hname : IsQualifiedName name.toList)
      (harguments : ∀ t ∈ arguments, t ≠ wildcard → IsQualified t) :
      IsQualified ⟨name, arguments, dimensions⟩

/-- How the dimensions that a parameter adds to its type are written. -/
inductive ArrayForm where
  | none
  /-- Three dots behind the type. -/
  | dots
  /-- Pairs of brackets behind the name. -/
  | brackets (pairs : Nat)

/-- The number of dimensions that are added. -/
def ArrayForm.added : ArrayForm → Nat
  | none => 0
  | dots => 1
  | brackets pairs => pairs

/-- A parameter as it is written: annotations and `final`, a type, a name. Type and name are not the
word `final` themselves, which would be dropped. -/
structure WrittenParameter where
  leading : List (List Char)
  type : TypeExpr
  name : List Char
  form : ArrayForm
  leading_dropped : ∀ word ∈ leading, word = "final".toList ∨ IsAnnotation word
  type_qualified : IsQualified type
  type_ne : type.render ≠ "final"
  name_identifier : IsIdentifier name
  name_ne : name ≠ "final".toList

namespace WrittenParameter

def typeText (p : WrittenParameter) : List Char :=
  p.type.render.toList ++ match p.form with
    | .dots => TypeExpr.dots
    | _ => []

def nameText (p : WrittenParameter) : List Char :=
  p.name ++ match p.form with
    | .brackets pairs => (renderDimensions pairs).toList
    | _ => []

/-- The words of the parameter, with one space between them. -/
def text (p : WrittenParameter) : List Char :=
  List.intercalate [' '] (p.leading ++ [p.typeText, p.nameText])

/-- The type with the dimensions that are added. -/
def fullType (p : WrittenParameter) : TypeExpr :=
  { p.type with dimensions := p.type.dimensions + p.form.added }

/-- What the parameter says. -/
def parameter (p : WrittenParameter) : Parameter :=
  ⟨String.ofList p.name, p.type.render ++ renderDimensions p.form.added⟩

end WrittenParameter

/-! ## Characters -/

theorem isPlain_of_isIdentifierChar {c : Char} (h : isIdentifierChar c = true) :
    isPlain c = true :=
  isPlain_of_class (p := isIdentifierChar) (by decide +kernel) h

theorem isBlank_of_isIdentifierChar {c : Char} (h : isIdentifierChar c = true) :
    isBlank c = false :=
  isBlank_eq_false_of (p := isIdentifierChar) (by decide +kernel) h

theorem IsIdentifier.ne_of_mem {cs : List Char} (h : IsIdentifier cs) {c d : Char} (hc : c ∈ cs)
    (hd : isIdentifierChar d = false) : c ≠ d := by
  rintro rfl
  rw [h.chars c hc] at hd
  cases hd

theorem isTypeNameChar_of_isTypeParameterChar {c : Char} (h : isTypeParameterChar c = true) :
    isTypeNameChar c = true := by
  rw [isTypeNameChar, h, Bool.true_or]

/-- A qualified name is a name of the grammar that does not end with a dot. -/
theorem IsQualifiedName.exists_last {cs : List Char} (h : IsQualifiedName cs) :
    ∃ front c, cs = front ++ [c] ∧ IsTypeName (front ++ [c]) ∧ c ≠ '.' := by
  obtain ⟨segments, hne, hsegments, rfl⟩ := h
  induction segments with
  | nil => exact absurd rfl hne
  | cons s segments ih =>
    obtain ⟨⟨hs, hchars⟩, hsegments⟩ := List.forall_mem_cons.1 hsegments
    cases segments with
    | nil =>
      obtain ⟨front, c, rfl⟩ := (List.eq_nil_or_concat s).resolve_left hs
      rw [List.concat_eq_append] at hs hchars ⊢
      refine ⟨front, c, List.intercalate_singleton, ⟨hs, fun d hd => ?_⟩, ?_⟩
      · exact isTypeNameChar_of_isTypeParameterChar (hchars d hd)
      · rintro rfl
        exact absurd (hchars '.' (by simp)) (by decide +kernel)
    | cons s' segments =>
      obtain ⟨front, c, hlast, hname, hdot⟩ := ih (by simp) hsegments
      refine ⟨s ++ '.' :: front, c, ?_, ⟨by simp, fun d hd => ?_⟩, hdot⟩
      · rw [List.intercalate_cons_cons, hlast]
        simp
      · rw [List.append_assoc, List.mem_append, List.cons_append, List.mem_cons] at hd
        rcases hd with hd | rfl | hd
        · exact isTypeNameChar_of_isTypeParameterChar (hchars d hd)
        · decide +kernel
        · exact hname.chars d hd

theorem IsQualified.wellFormed {t : TypeExpr} (h : IsQualified t) : t.WellFormed := by
  induction h with
  | mk hname _ ih =>
    obtain ⟨front, c, hlast, htypeName, -⟩ := hname.exists_last
    exact .mk (hlast ▸ htypeName) ih

/-- A written type does not end with a dot. -/
theorem IsQualified.exists_last {t : TypeExpr} (h : IsQualified t) :
    ∃ front c, t.render.toList = front ++ [c] ∧ c ≠ '.' := by
  rcases t.render_eq_name_or_last with hname | ⟨front, c, hlast, hc⟩
  · obtain ⟨hqualified, -⟩ := h
    obtain ⟨front, c, hlast, -, hdot⟩ := hqualified.exists_last
    exact ⟨front, c, hname.trans hlast, hdot⟩
  · refine ⟨front, c, hlast, ?_⟩
    rcases hc with rfl | rfl <;> decide

/-! ## What is read of the type -/

/-- In a text whose blanks stand behind commas no word is dropped, unless the whole text is. -/
theorem isKept_of_mem_words {cs : List Char} (hmark : '@' ∉ cs) (hblanks : withoutBlanks cs = cs)
    (hlast : cs.getLast? ≠ some 'l' ∨ words cs = [cs] ∧ cs ≠ "final".toList) {word : List Char}
    (h : word ∈ words cs) : isKept word = true := by
  obtain ⟨u, v, hcs, hv⟩ := exists_of_mem_words h
  have hhead : word.head? ≠ some '@' := by
    intro hhead
    have hmem : '@' ∈ u ++ (word ++ v) := by simp [List.mem_of_mem_head? hhead]
    exact hmark (hcs ▸ hmem)
  have hfinal : String.ofList word ≠ "final" := by
    intro hword
    obtain rfl : word = "final".toList := by rw [← hword, String.toList_ofList]
    cases v with
    | nil =>
      rcases hlast with hlast | ⟨hwhole, hne⟩
      · exact hlast (by simp [hcs])
      · rw [hwhole] at h
        exact hne (List.mem_singleton.1 h).symm
    | cons b v =>
      have hb : isBlank b = true := by simpa using hv
      have hcut : withoutBlanks cs = (u ++ ['f', 'i', 'n', 'a']) ++ 'l' :: b :: v := by
        rw [hblanks, hcs]
        simp
      exact absurd (comma_of_withoutBlanks hcut hb) (by decide)
  simp [isKept, hhead, hfinal]

namespace WrittenParameter

variable (p : WrittenParameter)

theorem typeText_cases :
    p.typeText = p.type.render.toList ∨ p.typeText = p.type.render.toList ++ TypeExpr.dots := by
  unfold typeText
  split
  · exact .inr rfl
  · exact .inl (List.append_nil _)

theorem withoutBlanks_typeText : withoutBlanks p.typeText = p.typeText := by
  have htype := partsHave_withoutBlanks.render p.type_qualified.wellFormed
  have hdots : withoutBlanks TypeExpr.dots = TypeExpr.dots := by decide
  rcases p.typeText_cases with h | h
  · rw [h, htype]
  · rw [h, withoutBlanks_append, htype, hdots]

theorem isKept_of_mem_typeText {word : List Char} (h : word ∈ words p.typeText) :
    isKept word = true := by
  have hmark : '@' ∉ p.type.render.toList := partsHave_noMark.render p.type_qualified.wellFormed
  refine isKept_of_mem_words ?_ p.withoutBlanks_typeText ?_ h
  · rcases p.typeText_cases with h | h
    · rwa [h]
    · rw [h, List.mem_append, not_or]
      exact ⟨hmark, by decide⟩
  · rcases p.typeText_cases with h | h
    · rcases p.type.render_eq_name_or_last with hname | ⟨front, c, hlast, hc⟩
      · have htypeName : IsTypeName p.type.name.toList := p.type_qualified.wellFormed.name
        refine .inr ⟨?_, fun hfinal => p.type_ne (String.toList_inj.1 (h ▸ hfinal))⟩
        rw [h, hname]
        exact words_eq_singleton htypeName.ne_nil fun c hc =>
          isBlank_of_isTypeNameChar (htypeName.chars c hc)
      · rw [h, hlast, List.getLast?_concat]
        rcases hc with rfl | rfl <;> exact .inl (by decide)
    · exact .inl (by simp [h, TypeExpr.dots])

end WrittenParameter

theorem normalizeType_render {t : TypeExpr} (h : IsQualified t) :
    normalizeType t.render.toList = t.render.toList := by
  have hwritten := partsHave_withoutBlanks.render h.wellFormed
  have hcut : dropTrailing? ['.', '.', '.'] t.render.toList = none := by
    obtain ⟨front, c, hlast, hdot⟩ := h.exists_last
    rw [dropTrailing?, hlast, if_neg]
    exact fun hsuffix => hdot (eq_dot_of_suffix (List.isSuffixOf_iff_suffix.1 hsuffix))
  simp only [normalizeType, hwritten, hcut]

theorem normalizeType_render_dots {t : TypeExpr} (h : IsQualified t) :
    normalizeType (t.render.toList ++ TypeExpr.dots) = t.render.toList ++ ['[', ']'] := by
  have hwritten : withoutBlanks (t.render.toList ++ TypeExpr.dots) =
      t.render.toList ++ TypeExpr.dots := by
    rw [withoutBlanks_append, partsHave_withoutBlanks.render h.wellFormed]
    rfl
  have hcut : dropTrailing? ['.', '.', '.'] (t.render.toList ++ TypeExpr.dots) =
      some t.render.toList := dropTrailing?_dots _
  simp only [normalizeType, hwritten, hcut]

/-! ## What is read of the name -/

/-- Brackets behind the name go to the type. -/
theorem moveBrackets_dimensions (type : List Char) {name : List Char}
    (h : Stops (· == ']') name.reverse) (n : Nat) :
    moveBrackets type (name ++ (renderDimensions n).toList).reverse =
      (type ++ (renderDimensions n).toList, name) := by
  induction n generalizing type with
  | zero => simpa [renderDimensions] using moveBrackets_of_stops type h
  | succ n ih =>
    have hend : (name ++ (renderDimensions (n + 1)).toList).reverse =
        ']' :: '[' :: (name ++ (renderDimensions n).toList).reverse := by
      rw [toList_renderDimensions_add n 1, ← List.append_assoc, List.reverse_append]
      rfl
    rw [hend, moveBrackets, ih, toList_renderDimensions_succ]
    simp

theorem IsIdentifier.stops_bracket {cs : List Char} (h : IsIdentifier cs) :
    Stops (· == ']') cs.reverse := by
  intro c hc
  have hmem := List.mem_reverse.1 (List.mem_of_mem_head? hc)
  exact beq_eq_false_iff_ne.2 (h.ne_of_mem hmem (by decide +kernel))

namespace WrittenParameter

variable (p : WrittenParameter)

theorem nameText_cases : ∃ n, p.nameText = p.name ++ (renderDimensions n).toList := by
  unfold nameText
  split
  · exact ⟨_, rfl⟩
  · exact ⟨0, rfl⟩

theorem words_nameText : words p.nameText = [p.nameText] := by
  obtain ⟨n, hn⟩ := p.nameText_cases
  have hne : p.nameText ≠ [] := by simp [hn, p.name_identifier.ne_nil]
  refine words_eq_singleton hne fun c hc => ?_
  rw [hn, List.mem_append] at hc
  rcases hc with hc | hc
  · exact isBlank_of_isIdentifierChar (p.name_identifier.chars c hc)
  · rcases eq_bracket_of_mem hc with rfl | rfl <;> decide

theorem isKept_nameText : isKept p.nameText = true := by
  obtain ⟨n, hn⟩ := p.nameText_cases
  have hhead : p.nameText.head? ≠ some '@' := by
    intro hhead
    have hmem := List.mem_of_mem_head? hhead
    rw [hn, List.mem_append] at hmem
    rcases hmem with hmem | hmem
    · exact p.name_identifier.ne_of_mem hmem (by decide +kernel) rfl
    · exact absurd (eq_bracket_of_mem hmem) (by decide)
  have hfinal : p.nameText ≠ "final".toList := by
    intro hfinal
    rcases (brackets_renderDimensions n).eq_nil_or_last with ⟨hnone, -⟩ | ⟨front, hlast⟩
    · rw [hn, hnone, List.append_nil] at hfinal
      exact p.name_ne hfinal
    · have hmem : ']' ∈ p.nameText := by simp [hn, hlast]
      rw [hfinal] at hmem
      exact absurd hmem (by decide)
  have hword : String.ofList p.nameText ≠ "final" := fun h =>
    hfinal (by rw [← h, String.toList_ofList])
  simp [isKept, hhead, hword]

/-! ## One parameter -/

/-- The dimensions come together behind the type, wherever they are written. -/
theorem moveBrackets_text :
    moveBrackets (normalizeType p.typeText) p.nameText.reverse =
      (p.type.render.toList ++ (renderDimensions p.form.added).toList, p.name) := by
  have hstops := p.name_identifier.stops_bracket
  unfold typeText nameText
  cases p.form with
  | none =>
    simp only [List.append_nil, normalizeType_render p.type_qualified]
    rw [moveBrackets_of_stops _ hstops, ArrayForm.added, renderDimensions, String.toList_empty,
      List.append_nil]
  | dots =>
    simp only [List.append_nil, normalizeType_render_dots p.type_qualified]
    exact moveBrackets_of_stops _ hstops
  | brackets pairs =>
    simp only [List.append_nil, normalizeType_render p.type_qualified]
    exact moveBrackets_dimensions _ hstops pairs

theorem chars_of_mem_leading {word : List Char} (h : word ∈ p.leading) :
    ∀ c ∈ word, isBlank c = false ∧ isPlain c = true := by
  rcases p.leading_dropped word h with rfl | ⟨path, rfl, hpath⟩
  · have hall : "final".toList.all (fun c => !isBlank c && isPlain c) = true := by decide
    intro c hc
    simpa using List.all_eq_true.1 hall c hc
  · refine List.forall_mem_cons.2 ⟨by decide, fun c hc => ?_⟩
    rcases hpath c hc with hc | rfl
    · exact ⟨isBlank_of_isIdentifierChar hc, isPlain_of_isIdentifierChar hc⟩
    · decide

theorem words_of_mem_leading {word : List Char} (h : word ∈ p.leading) : words word = [word] := by
  have hne : word ≠ [] := by
    rcases p.leading_dropped word h with rfl | ⟨path, rfl, -⟩ <;> simp
  exact words_eq_singleton hne fun c hc => (p.chars_of_mem_leading h c hc).1

theorem not_isKept_of_mem_leading {word : List Char} (h : word ∈ p.leading) :
    isKept word = false := by
  rcases p.leading_dropped word h with rfl | ⟨path, rfl, -⟩
  · decide
  · rfl

theorem words_text : words p.text = p.leading ++ words p.typeText ++ [p.nameText] := by
  have hleading : p.leading.flatMap words = p.leading := by
    rw [List.flatMap_def, List.map_congr_left fun _ => p.words_of_mem_leading, ← List.flatMap_def,
      List.flatMap_singleton']
  rw [text, words_intercalate, List.flatMap_append, hleading]
  simp [p.words_nameText]

theorem words_typeText_ne_nil : words p.typeText ≠ [] := by
  intro hnone
  have hempty : p.typeText = [] := by
    rw [← p.withoutBlanks_typeText, ← withoutBlanks_filter, ← flatten_words, hnone]
    rfl
  obtain ⟨front, c, hlast, -⟩ := p.type_qualified.exists_last
  rcases p.typeText_cases with h | h <;> simp [h, hlast] at hempty

/-- A written parameter is read as what it says. -/
theorem parameter?_text : parameter? p.text = some p.parameter := by
  have hmove : moveBrackets (normalizeType (words p.typeText).flatten) p.nameText.reverse =
      (p.type.render.toList ++ (renderDimensions p.form.added).toList, p.name) := by
    rw [normalizeType_words, p.moveBrackets_text]
  rw [parameter?_of_words p.words_text p.words_typeText_ne_nil
    (fun _ => p.not_isKept_of_mem_leading) (fun _ => p.isKept_of_mem_typeText) p.isKept_nameText
    hmove, parameter, ← String.toList_append, String.ofList_toList]

/-- The type text of a written parameter is read as its type. -/
theorem read?_parameter : read? p.parameter.type = some p.fullType := by
  have hwellFormed : p.fullType.WellFormed := p.type_qualified.wellFormed.withDimensions _
  have hrender : p.fullType.render.toList = p.parameter.type.toList := by
    rw [parameter, String.toList_append, toList_render, toList_render p.type, fullType,
      toList_renderDimensions_add]
    simp
  exact read?_of_derives (hrender ▸ hwellFormed.derives_text)

end WrittenParameter

/-! ## Commas -/

theorem enclosed_renderDimensions (n : Nat) : Enclosed (renderDimensions n).toList := by
  induction n with
  | zero => exact .plain (by simp [renderDimensions])
  | succ n ih =>
    have hpair : Enclosed ['[', ']'] := .group (by decide) (rfl : nested typeBrackets [] = true)
    rw [toList_renderDimensions_succ]
    exact hpair.append ih

/-- The commas of a written type stand inside its angle brackets. -/
theorem enclosed_render {t : TypeExpr} (h : t.WellFormed) : Enclosed t.render.toList := by
  rw [toList_render]
  cases h with
  | @mk name arguments dimensions hname harguments =>
    refine .append (.plain fun c hc => ?_) (.append ?_ (enclosed_renderDimensions _))
    · exact isPlain_of_isTypeNameChar (hname.chars c hc)
    · cases arguments with
      | nil => exact .plain (by simp [argumentText])
      | cons first rest =>
        have hinside := partsHave_nested.list fun t ht =>
          partsHave_nested.argument fun hne => partsHave_nested.render (harguments t ht hne)
        exact .group (by decide) hinside

namespace WrittenParameter

variable (p : WrittenParameter)

theorem enclosed_leading {word : List Char} (h : word ∈ p.leading) : Enclosed word :=
  .plain fun c hc => (p.chars_of_mem_leading h c hc).2

theorem enclosed_typeText : Enclosed p.typeText := by
  have htype := enclosed_render p.type_qualified.wellFormed
  rcases p.typeText_cases with h | h
  · rwa [h]
  · rw [h]
    exact htype.append (.plain (List.all_eq_true.1 rfl))

theorem enclosed_nameText : Enclosed p.nameText := by
  obtain ⟨n, hn⟩ := p.nameText_cases
  rw [hn]
  refine .append (.plain fun c hc => ?_) (enclosed_renderDimensions n)
  exact isPlain_of_isIdentifierChar (p.name_identifier.chars c hc)

theorem enclosed_text : Enclosed p.text := by
  refine .intercalate (List.forall_mem_append.2 ⟨fun word => p.enclosed_leading, ?_⟩)
  simp [p.enclosed_typeText, p.enclosed_nameText]

end WrittenParameter

/-- **Parameter lists are read as they are written.** Let parameters be written with annotations and
`final`, a type and a name each, and put together with commas. They are read in order, each with its
name and with its type as it is written; three dots behind the type stand for one more pair of
brackets, and pairs of brackets behind the name are taken over by the type. Each type text is read
as the type, with the dimensions that are added. -/
theorem parameters_written (ps : List WrittenParameter) :
    parameters (List.intercalate [',', ' '] (ps.map (·.text))) = ps.map (·.parameter) ∧
      ∀ p ∈ ps, read? p.parameter.type = some p.fullType := by
  refine ⟨?_, fun p _ => p.read?_parameter⟩
  have hread : parameter? ∘ WrittenParameter.text = some ∘ WrittenParameter.parameter :=
    funext WrittenParameter.parameter?_text
  have henclosed : ∀ piece ∈ ps.map (·.text), Enclosed piece :=
    List.forall_mem_map.2 fun p _ => p.enclosed_text
  rw [parameters_intercalate henclosed, List.filterMap_map, hread, List.filterMap_eq_map]

theorem IsQualifiedName.ofSegment {s : String} (hne : s.toList ≠ [])
    (hchars : s.toList.all isTypeParameterChar = true) : IsQualifiedName s.toList :=
  ⟨[s.toList], by simp, by simpa [hne] using hchars, List.intercalate_singleton.symm⟩

/-- The parameter `final @a.NotNull Map<String, List<?>[]>... parts`. -/
def partsParameter : WrittenParameter where
  leading := ["final".toList, "@a.NotNull".toList]
  type := ⟨"Map", [⟨"String", [], 0⟩, ⟨"List", [wildcard], 1⟩], 0⟩
  name := "parts".toList
  form := .dots
  leading_dropped := by
    have hpath : "a.NotNull".toList.all (fun c => isIdentifierChar c || c == '.') = true := by
      decide +kernel
    have hmarked : IsAnnotation "@a.NotNull".toList := by
      refine ⟨"a.NotNull".toList, rfl, fun c hc => ?_⟩
      simpa using List.all_eq_true.1 hpath c hc
    exact List.forall_mem_cons.2 ⟨.inl rfl, List.forall_mem_singleton.2 (.inr hmarked)⟩
  type_qualified := by
    have hstring : IsQualified ⟨"String", [], 0⟩ :=
      .mk (.ofSegment (by decide) (by decide +kernel)) (by simp)
    have hlist : IsQualified ⟨"List", [wildcard], 1⟩ :=
      .mk (.ofSegment (by decide) (by decide +kernel)) (by simp)
    exact .mk (.ofSegment (by decide) (by decide +kernel)) (by simp [hstring, hlist])
  type_ne := by decide +kernel
  name_identifier := ⟨by decide, List.all_eq_true.1 (by decide +kernel)⟩
  name_ne := by decide

/-- The parameter `int codes[][]`. -/
def codesParameter : WrittenParameter where
  leading := []
  type := ⟨"int", [], 0⟩
  name := "codes".toList
  form := .brackets 2
  leading_dropped := by simp
  type_qualified := .mk (.ofSegment (by decide) (by decide +kernel)) (by simp)
  type_ne := by decide +kernel
  name_identifier := ⟨by decide, List.all_eq_true.1 (by decide +kernel)⟩
  name_ne := by decide

/-- Blanks inside the type and words in front of it, dimensions in all three places. -/
theorem parameters_written_parts :
    parameters "final @a.NotNull Map<String, List<?>[]>... parts, int codes[][]".toList =
        [⟨"parts", "Map<String, List<?>[]>[]"⟩, ⟨"codes", "int[][]"⟩] ∧
      read? "Map<String, List<?>[]>[]" =
        some ⟨"Map", [⟨"String", [], 0⟩, ⟨"List", [wildcard], 1⟩], 1⟩ := by
  obtain ⟨hread, htypes⟩ := parameters_written [partsParameter, codesParameter]
  have htext : List.intercalate [',', ' '] ([partsParameter, codesParameter].map (·.text)) =
      "final @a.NotNull Map<String, List<?>[]>... parts, int codes[][]".toList := by
    decide +kernel
  have hparts : partsParameter.parameter = ⟨"parts", "Map<String, List<?>[]>[]"⟩ := by
    decide +kernel
  have hcodes : codesParameter.parameter = ⟨"codes", "int[][]"⟩ := by
    decide +kernel
  have htype := htypes partsParameter (by simp)
  rw [htext, List.map_cons, List.map_singleton, hparts, hcodes] at hread
  rw [hparts] at htype
  exact ⟨hread, htype⟩

end ClassDiagram.Source
