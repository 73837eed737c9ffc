import ClassDiagram.Proofs.Source.ParameterLists
import ClassDiagram.Proofs.Source.Readings
import ClassDiagram.Proofs.Source.Supertypes

/-!
# Lists of type parameters

Two counts decide what is read of a list of type parameters: the end of the list is found by its
angle brackets, the parameters are separated by the commas outside brackets of all kinds. On bounds
that are nested both agree with the nesting, so that list and parameters end where they were written
to end, and the header is what follows the list.

Of the first words of the parameters, those that hold a character other than letters, digits, `_`
and `$` are left out. A declared name may go on with more characters than these (marks, connectors
and joiners), so there are type parameters that are not recorded.
-/

namespace ClassDiagram.Text

/-! ## Commas inside brackets -/

/-- No comma stands outside all brackets: what is in front of a comma leaves a bracket open. -/
def commasInside (cs : List Char) : Bool :=
  (List.range cs.length).all fun i => cs[i]? != some ',' || !nested typeBrackets (cs.take i)

theorem not_nested_of_commasInside {cs : List Char} (h : commasInside cs = true) {u v : List Char}
    (hcs : cs = u ++ ',' :: v) : nested typeBrackets u = false := by
  have hcomma := List.all_eq_true.1 h u.length (List.mem_range.2 (by simp [hcs]))
  simpa [hcs] using hcomma

/-- What a character does to the brackets left open, it does to the depth. -/
theorem BracketStep.depthAfter_eq {c : Char} {awaited awaited' : List Char}
    (h : BracketStep typeBrackets c awaited awaited') :
    depthAfter awaited.length c = awaited'.length := by
  cases h with
  | opening hmem => exact steady_depthAfter.opening _ hmem _
  | closing hmem => exact steady_depthAfter.closing _ hmem _
  | other hother => exact steady_depthAfter.other c hother _

theorem uncut_of_nestedFrom {awaited cs : List Char}
    (h : nestedFrom typeBrackets awaited cs = true)
    (hcommas : ∀ u v, cs = u ++ ',' :: v → nestedFrom typeBrackets awaited u = false) :
    Uncut ',' awaited.length cs := by
  induction cs generalizing awaited with
  | nil => exact uncut_nil ',' _
  | cons c cs ih =>
    obtain ⟨awaited', hc, hcs, hstep⟩ := nestedFrom_step h
    rw [uncut_cons_iff, hc.depthAfter_eq]
    constructor
    · -- at depth zero no bracket is open
      cases awaited with
      | nil =>
        have hc : c ≠ ',' := by
          rintro rfl
          exact Bool.noConfusion (hcommas [] cs rfl)
        simp [isCut, hc]
      | cons partner awaited => simp [isCut]
    · refine ih hcs fun u v huv => ?_
      have hfront := hstep [] u
      rw [List.append_nil, List.append_nil] at hfront
      rw [← hfront]
      exact hcommas (c :: u) v (by rw [huv, List.cons_append])

theorem Enclosed.of_commasInside {cs : List Char} (h : nested typeBrackets cs = true)
    (hcommas : commasInside cs = true) : Enclosed cs where
  uncut := uncut_of_nestedFrom h fun _ _ hcs => not_nested_of_commasInside hcommas hcs
  depth := depthBehind_nested 0 h

theorem nested_plain {cs : List Char} (h : ∀ c ∈ cs, isPlain c = true) :
    nested typeBrackets cs = true := by
  refine nested_of_free fun c hc => ?_
  have hc := h c hc
  simp only [isPlain, Bool.and_eq_true, Bool.not_eq_true'] at hc
  exact ⟨hc.1.2, hc.2⟩

theorem nested_intercalate {ts : List (List Char)} (h : ∀ t ∈ ts, nested typeBrackets t = true) :
    nested typeBrackets (List.intercalate [','] ts) = true := by
  induction ts with
  | nil => rfl
  | cons t ts ih =>
    obtain ⟨ht, hts⟩ := List.forall_mem_cons.1 h
    cases ts with
    | nil => simpa using ht
    | cons t' ts =>
      rw [List.intercalate_cons_cons]
      exact nested_append (nested_append ht rfl) (ih hts)

/-! ## The first word -/

theorem words_gap {gap : List Char} (h : ∀ c ∈ gap, isBlank c = true) (w : List Char) :
    words (gap ++ w) = words w := by
  induction gap with
  | nil => rfl
  | cons c gap ih =>
    obtain ⟨hc, hgap⟩ := List.forall_mem_cons.1 h
    rw [List.cons_append, words_blank _ hc, ih hgap]

theorem head?_words {v w : List Char} (hne : v ≠ []) (hv : ∀ c ∈ v, isBlank c = false)
    (hw : Stops (!isBlank ·) w) : (words (v ++ w)).head? = some v := by
  cases w with
  | nil => rw [List.append_nil, words_eq_singleton hne hv, List.head?_cons]
  | cons c w =>
    have hc : isBlank c = true := by simpa using hw
    rw [words_append v hc, words_eq_singleton hne hv, List.singleton_append, List.head?_cons]

end ClassDiagram.Text

namespace ClassDiagram.Source

open Text Cursor

/-! ## Written type parameters -/

/-- A bound as it is written, from the blanks in front of `extends` on. -/
structure TypeBound where
  gap : List Char
  /-- What follows `extends`: a text with nested brackets and without commas outside of them. -/
  text : List Char
  gap_ne : gap ≠ [] := by decide
  gap_blank : gap.all isBlank = true := by decide
  text_nested : nested typeBrackets text = true := by decide
  text_commas : commasInside text = true := by decide

def TypeBound.chars (b : TypeBound) : List Char := b.gap ++ ("extends".toList ++ b.text)

/-- A type parameter as it is written: an identifier, and possibly a bound. -/
structure WrittenTypeParameter where
  /-- Blanks in front of the identifier. -/
  before : List Char
  name : List Char
  bound? : Option TypeBound
  before_blank : before.all isBlank = true := by decide
  identifier : IsIdentifier name

namespace WrittenTypeParameter

def boundChars (p : WrittenTypeParameter) : List Char := p.bound?.elim [] (·.chars)

def chars (p : WrittenTypeParameter) : List Char := p.before ++ (p.name ++ p.boundChars)

/-- The parameters with commas between them. -/
def list (ps : List WrittenTypeParameter) : List Char := List.intercalate [','] (ps.map (·.chars))

/-- The name has letters, digits, `_` and `$` only. -/
def isRecorded (p : WrittenTypeParameter) : Bool := p.name.all isTypeParameterChar

/-- What holds of texts without brackets and commas and of bounds holds of the whole parameter. -/
theorem chars_induction (p : WrittenTypeParameter) {P : List Char → Prop}
    (happend : ∀ {cs ds}, P cs → P ds → P (cs ++ ds))
    (hplain : ∀ {cs}, (∀ c ∈ cs, isPlain c = true) → P cs)
    (hbound : ∀ b : TypeBound, P b.text) : P p.chars := by
  have hblank : ∀ {cs : List Char}, cs.all isBlank = true → P cs := fun h =>
    hplain fun c hc => isPlain_of_isBlank (List.all_eq_true.1 h c hc)
  have hname : P p.name := hplain fun c hc => isPlain_of_isIdentifierChar (p.identifier.chars c hc)
  refine happend (hblank p.before_blank) (happend hname ?_)
  unfold boundChars
  cases p.bound? with
  | none => exact hblank rfl
  | some b =>
    have hword : P "extends".toList :=
      hplain fun _ => List.all_eq_true.1 (by decide : "extends".toList.all isPlain = true) _
    exact happend (hblank b.gap_blank) (happend hword (hbound b))

theorem enclosed_chars (p : WrittenTypeParameter) : Enclosed p.chars :=
  p.chars_induction .append .plain fun b => .of_commasInside b.text_nested b.text_commas

theorem nested_list (ps : List WrittenTypeParameter) : nested typeBrackets (list ps) = true := by
  refine nested_intercalate (List.forall_mem_map.2 fun p _ => ?_)
  exact p.chars_induction nested_append nested_plain (·.text_nested)

theorem pieces_list {ps : List WrittenTypeParameter} (hne : ps ≠ []) :
    pieces ',' (list ps) = ps.map (·.chars) := by
  have huncut : ∀ p ∈ ps, pieces ',' p.chars = [p.chars] := fun p _ => p.enclosed_chars.uncut
  have hdepth : ∀ t ∈ (ps.map (·.chars)).dropLast, depthBehind 0 t = 0 := fun t ht => by
    obtain ⟨p, -, rfl⟩ := List.mem_map.1 (List.dropLast_subset _ ht)
    exact p.enclosed_chars.depth
  rw [list, pieces_intercalate (by decide) (by decide) (by simpa using hne) hdepth,
    List.flatMap_map, List.flatMap_def, List.map_congr_left huncut, ← List.flatMap_def,
    List.map_eq_flatMap]

theorem head?_words_chars (p : WrittenTypeParameter) : (words p.chars).head? = some p.name := by
  have hbound : Stops (!isBlank ·) p.boundChars := by
    unfold boundChars
    cases p.bound? with
    | none => exact stops_nil
    | some b =>
      have hgap := b.gap_blank
      obtain ⟨c, gap, hcons⟩ := List.exists_cons_of_ne_nil b.gap_ne
      rw [hcons, List.all_cons, Bool.and_eq_true] at hgap
      simp [TypeBound.chars, hcons, hgap.1]
  rw [chars, words_gap (List.all_eq_true.1 p.before_blank)]
  exact head?_words p.identifier.ne_nil
    (fun c hc => isBlank_of_isIdentifierChar (p.identifier.chars c hc)) hbound

end WrittenTypeParameter

/-! ## What is read -/

namespace Declaration

open WrittenTypeParameter

/-- A class whose name nothing else precedes is found. -/
theorem find?_class {name rest : List Char} (hname : IsName name) (hrest : Stops isNameChar rest) :
    find? ("class ".toList ++ (name ++ rest)) = some
      ⟨.classType, String.ofList name, between [] ("class ".toList ++ (name ++ rest)),
        between ("class ".toList ++ name) rest⟩ := by
  have htext : "class ".toList ++ (name ++ rest) = "class".toList ++ ' ' :: (name ++ rest) := rfl
  have htoken : (between [] ("class".toList ++ ' ' :: (name ++ rest))).token?
      ClassifierKind.classType.keyword =
        some (between ([] ++ "class".toList) (' ' :: (name ++ rest))) :=
    token?_between [] "class" _
  have hread := name?_between ([] ++ "class".toList ++ [' ']) hname hrest
  have hword : (between [] ("class".toList ++ ' ' :: (name ++ rest))).atWordStart = true := rfl
  have hhere : at? [.classType, .enumType] (between [] ("class ".toList ++ (name ++ rest))) = some
      ⟨.classType, String.ofList name, between [] ("class ".toList ++ (name ++ rest)),
        between ("class ".toList ++ name) rest⟩ := by
    rw [htext]
    simp only [at?, hword, guard, if_true, List.findSome?_cons, htoken,
      skipSome?_blank_name _ hname, hread, Option.bind_eq_bind, Option.bind_some, Option.pure_def]
    rfl
  unfold find?
  rw [ofText_eq, find?_here hhere, Option.some_or]

section List

variable {d : Declaration} {ps : List WrittenTypeParameter} {tail : List Char}
  (hd : d.afterName = '<' :: (list ps ++ '>' :: tail))

include hd

theorem header_list : d.header = tail.takeWhile (· != '{') := by
  unfold header
  rw [hd, angleList?_nested (nested_list ps)]

theorem typeParameters_list :
    d.typeParameters = (ps.filter (·.isRecorded)).map fun p => String.ofList p.name := by
  have hheads : (pieces ',' (list ps)).filterMap (fun piece => (words piece).head?) =
      ps.map (·.name) := by
    cases ps with
    | nil => rfl
    | cons p ps =>
      rw [pieces_list (List.cons_ne_nil p ps), List.filterMap_map, ← List.filterMap_eq_map]
      exact List.filterMap_congr fun p _ => p.head?_words_chars
  unfold typeParameters
  rw [hd, angleList?_nested (nested_list ps)]
  simp only [hheads, List.filter_map, List.map_map]
  rfl

end List

end Declaration

/-- **Type parameters are split off as they were written**, whatever their bounds and the text behind
the list are: the header is the text behind the list up to its first brace, and the type parameters
are the written ones in order, without those that hold other characters than letters, digits, `_`
and `$`. So all of them are recorded exactly if there are none such. -/
theorem typeParameters_written {name : List Char} (hname : IsName name)
    (ps : List WrittenTypeParameter) (tail : List Char) :
    ∃ d, Declaration.find? ("class ".toList ++ (name ++
        '<' :: (WrittenTypeParameter.list ps ++ '>' :: tail))) = some d ∧
      d.kind = .classType ∧ d.name = String.ofList name ∧
      (∀ front rest, tail = front ++ '{' :: rest → '{' ∉ front → d.header = front) ∧
      ('{' ∉ tail → d.header = tail) ∧
      d.typeParameters = (ps.filter (·.isRecorded)).map (fun p => String.ofList p.name) ∧
      (d.typeParameters = ps.map (fun p => String.ofList p.name) ↔
        ∀ p ∈ ps, ∀ c ∈ p.name, isTypeParameterChar c = true) := by
  have hangle : Stops isNameChar ('<' :: (WrittenTypeParameter.list ps ++ '>' :: tail)) :=
    stops_cons.2 (by decide)
  have hfind := Declaration.find?_class hname hangle
  refine ⟨_, hfind, rfl, rfl, ?_⟩
  generalize hd : Declaration.mk _ _ _ _ = d
  have hafter : d.afterName = '<' :: (WrittenTypeParameter.list ps ++ '>' :: tail) := by
    rw [← hd]
    rfl
  have hbrace : ∀ {cs : List Char}, '{' ∉ cs → ∀ c ∈ cs, (c != '{') = true := fun h c hc =>
    bne_iff_ne.2 fun heq => h (heq ▸ hc)
  rw [Declaration.header_list hafter, Declaration.typeParameters_list hafter]
  refine ⟨?_, ?_, rfl, ?_⟩
  · rintro front rest rfl hfront
    exact takeWhile_append_of_stops (hbrace hfront) (stops_cons.2 (by decide))
  · intro htail
    simpa using takeWhile_append_of_stops (hbrace htail) stops_nil
  · constructor
    · intro hall p hp
      have hlength := congrArg List.length hall
      rw [List.length_map, List.length_map] at hlength
      exact List.all_eq_true.1 (List.length_filter_eq_length_iff.1 hlength p hp)
    · intro hall
      have hself : ps.filter (·.isRecorded) = ps :=
        List.filter_eq_self.2 fun p hp => List.all_eq_true.2 (hall p hp)
      rw [hself]

def keyParameter : WrittenTypeParameter where
  before := []
  name := "K".toList
  bound? := some
    { gap := [' '], text := " Map<A, List<B[]>> & Comparable<K>".toList, gap_blank := .refl true }
  before_blank := .refl true
  identifier := ⟨by decide, List.all_eq_true.1 (by decide +kernel)⟩

def valueParameter : WrittenTypeParameter where
  before := [' ']
  name := "$V_2".toList
  bound? := none
  before_blank := .refl true
  identifier := ⟨by decide, List.all_eq_true.1 (by decide +kernel)⟩

/-- A bound with commas and two bounds in one, and a clause behind the list. -/
theorem typeParameters_written_cache :
    ∃ d, Declaration.find? ("class Cache<K extends Map<A, List<B[]>> & Comparable<K>, $V_2> " ++
        "extends Store<K> \x7b").toList = some d ∧
      d.typeParameters = ["K", "$V_2"] ∧ d.header = " extends Store<K> ".toList := by
  have hname : IsName "Cache".toList := by decide
  obtain ⟨d, hfind, -, -, hheader, -, -, hall⟩ :=
    typeParameters_written hname [keyParameter, valueParameter] " extends Store<K> \x7b".toList
  have hrecorded : ∀ p ∈ [keyParameter, valueParameter], ∀ c ∈ p.name,
      isTypeParameterChar c = true := by
    refine List.forall_mem_cons.2 ⟨?_, List.forall_mem_singleton.2 ?_⟩ <;>
      exact List.all_eq_true.1 (by decide +kernel)
  have htext : "class ".toList ++ ("Cache".toList ++ '<' ::
      (WrittenTypeParameter.list [keyParameter, valueParameter] ++ '>' ::
        " extends Store<K> \x7b".toList)) =
      ("class Cache<K extends Map<A, List<B[]>> & Comparable<K>, $V_2> " ++
        "extends Store<K> \x7b").toList := by
    decide +kernel
  rw [htext] at hfind
  refine ⟨d, hfind, hall.2 hrecorded, hheader " extends Store<K> ".toList [] ?_ ?_⟩
  · decide +kernel
  · decide +kernel

/-- An identifier with accents that are characters of their own. -/
def accentedParameter : WrittenTypeParameter where
  before := []
  name := "E\u0301le\u0301ment".toList
  bound? := none
  before_blank := .refl true
  identifier := ⟨by decide, List.all_eq_true.1 (by decide +kernel)⟩

/-- The identifier is accepted as the name of a class, but not recorded as a type parameter. -/
theorem not_typeParameters_accented :
    (Declaration.find? ("class ".toList ++ (accentedParameter.name ++ " \x7b".toList))).map
        (·.name) = some "E\u0301le\u0301ment" ∧
      (Declaration.find? ("class ".toList ++ ("Box".toList ++
        '<' :: (WrittenTypeParameter.list [accentedParameter] ++ '>' ::
          " \x7b\n\x7d\n".toList)))).map (·.typeParameters) = some [] := by
  decide +kernel

end ClassDiagram.Source
