import Mathlib.Data.List.Infix
import ClassDiagram.Proofs.Source.Readings
import ClassDiagram.Proofs.Text.Blank
import ClassDiagram.Proofs.Text.Nesting

/-!
# The constants of an enumeration

An enumeration is written as its name and a list of constants in braces, each one with its arguments
and its body (`EnumOutline`). Two scans read the list. The first looks for its end and counts
parentheses and braces only, so that it finds the end behind any arguments and bodies with nested
brackets (`EnumOutline.constantArea_list`). The second cuts the list at commas and counts angle
brackets as well, which in an expression are operators. Its count is off behind a shift or a
comparison, and then a constant is lost, or a word behind a comma is taken for one.
-/

namespace ClassDiagram.Source

open Text Cursor

/-! ## Written enumerations -/

/-- Arguments or a body, with the blanks in front of the brackets around them. -/
structure Bracketed where
  gap : List Char
  inner : List Char
  blank : gap.all isBlank = true := by decide
  closed : nested codeBrackets inner = true := by decide

def Bracketed.chars (opening closing : Char) (e : Bracketed) : List Char :=
  e.gap ++ opening :: (e.inner ++ [closing])

/-- A constant as it is written. -/
structure EnumConstant where
  name : List Char
  arguments? : Option Bracketed
  body? : Option Bracketed
  isName : IsName name := by decide

namespace EnumConstant

def parts (c : EnumConstant) : List Char :=
  c.arguments?.elim [] (·.chars '(' ')') ++ c.body?.elim [] (·.chars '{' '}')

def chars (c : EnumConstant) : List Char := c.name ++ c.parts

def bracketed (c : EnumConstant) : List Bracketed := c.arguments?.toList ++ c.body?.toList

end EnumConstant

/-- What stands between two commas of the list: a constant, or blanks only. -/
structure EnumSlot where
  before : List Char
  constant? : Option EnumConstant
  after : List Char
  blank : (before ++ after).all isBlank = true := by decide

namespace EnumSlot

def chars (s : EnumSlot) : List Char := s.before ++ (s.constant?.elim [] (·.chars) ++ s.after)

def name? (s : EnumSlot) : Option String := s.constant?.map fun c => String.ofList c.name

def bracketed (s : EnumSlot) : List Bracketed := s.constant?.elim [] (·.bracketed)

/-- The angle brackets are nested too, so none of them is an operator. -/
def anglesNested (s : EnumSlot) : Bool := s.bracketed.all fun e => nested typeBrackets e.inner

/-- The names in front of the pieces behind the first one: words that stand behind a comma of the
arguments or the body. -/
def strayNames (s : EnumSlot) : List String :=
  (pieces ',' s.chars).tail.filterMap fun piece => Declaration.leadingName? (trim piece)

/-- What holds of blanks, of names, and of arguments and bodies in their brackets, holds of the
whole slot. -/
theorem chars_induction (s : EnumSlot) {P : List Char → Prop}
    (happend : ∀ {cs ds}, P cs → P ds → P (cs ++ ds))
    (hblank : ∀ {cs}, cs.all isBlank = true → P cs) (hname : ∀ {cs}, IsName cs → P cs)
    (hgroup : ∀ e ∈ s.bracketed, ∀ p ∈ [('(', ')'), ('{', '}')], P (p.1 :: (e.inner ++ [p.2]))) :
    P s.chars := by
  obtain ⟨hbefore, hafter⟩ : s.before.all isBlank = true ∧ s.after.all isBlank = true := by
    simpa [List.all_append] using s.blank
  refine happend (hblank hbefore) (happend ?_ (hblank hafter))
  unfold bracketed at hgroup
  cases hconstant : s.constant? with
  | none => exact hblank rfl
  | some c =>
    rw [hconstant] at hgroup
    refine happend (hname c.isName) (happend ?_ ?_)
    · cases harguments : c.arguments? with
      | none => exact hblank rfl
      | some e =>
        have he : e ∈ c.bracketed := by simp [EnumConstant.bracketed, harguments]
        exact happend (hblank e.blank) (hgroup e he ('(', ')') (by simp))
    · cases hbody : c.body? with
      | none => exact hblank rfl
      | some e =>
        have he : e ∈ c.bracketed := by simp [EnumConstant.bracketed, hbody]
        exact happend (hblank e.blank) (hgroup e he ('{', '}') (by simp))

end EnumSlot

/-- An enumeration up to the end of its list of constants. -/
structure EnumOutline where
  name : List Char
  /-- What stands between the name and the opening brace. -/
  header : List Char
  slots : List EnumSlot
  isName : IsName name := by decide
  stops : Stops isNameChar header := by decide
  noBrace : '{' ∉ header := by decide

namespace EnumOutline

/-- The list of constants. -/
def list (o : EnumOutline) : List Char := List.intercalate [','] (o.slots.map (·.chars))

def chars (o : EnumOutline) : List Char :=
  "enum".toList ++ ' ' :: (o.name ++ (o.header ++ '{' :: o.list))

/-- The names of the constants, in order. -/
def names (o : EnumOutline) : List String := o.slots.filterMap (·.name?)

end EnumOutline

/-! ## The end of the list -/

namespace Declaration

/-- The depth that decides where the list of constants ends. -/
def areaDepth (depth : Nat) (c : Char) : Nat :=
  if c == '(' || c == '{' then depth + 1 else if c == ')' || c == '}' then depth - 1 else depth

theorem constantArea_cons (depth : Nat) (c : Char) (cs : List Char) :
    constantArea depth (c :: cs) =
      if (c == '}' || c == ';') && depth == 0 then []
      else c :: constantArea (areaDepth depth c) cs :=
  rfl

theorem steady_areaDepth : Steady codeBrackets areaDepth fun c => if c == ']' then 0 else 1 where
  opening p hp n := by
    simp only [codeBrackets, List.mem_cons, List.not_mem_nil, or_false] at hp
    rcases hp with rfl | rfl | rfl <;> rfl
  closing p hp n := by
    simp only [codeBrackets, List.mem_cons, List.not_mem_nil, or_false] at hp
    rcases hp with rfl | rfl | rfl <;> rfl
  other c hc n := by
    simp only [codeBrackets, List.forall_mem_cons] at hc
    simp [areaDepth, hc]

theorem constantArea_of_stays {depth : Nat} {cs : List Char} (h : StaysAbove areaDepth 1 depth cs)
    (ds : List Char) :
    constantArea depth (cs ++ ds) = cs ++ constantArea (cs.foldl areaDepth depth) ds := by
  induction cs generalizing depth with
  | nil => rfl
  | cons c cs ih =>
    have hdepth : depth ≠ 0 := Nat.ne_of_gt h.1
    rw [List.cons_append, constantArea_cons, ih h.2]
    simp [hdepth]

/-- The scan for the end of the list passes the text and is at depth zero behind it as well. -/
def Passed (cs : List Char) : Prop := ∀ ds, constantArea 0 (cs ++ ds) = cs ++ constantArea 0 ds

theorem passed_nil : Passed [] := fun _ => rfl

theorem Passed.append {cs ds : List Char} (h : Passed cs) (h' : Passed ds) : Passed (cs ++ ds) := by
  intro es
  rw [List.append_assoc, h, h', List.append_assoc]

theorem passed_plain {cs : List Char} (h : ∀ c ∈ cs, isPlain c = true ∧ c ≠ ';') : Passed cs := by
  intro ds
  induction cs with
  | nil => rfl
  | cons c cs ih =>
    obtain ⟨hc, hcs⟩ := List.forall_mem_cons.1 h
    simp only [isPlain, isOpening, isClosing, Bool.and_eq_true, Bool.not_eq_true',
      Bool.or_eq_false_iff] at hc
    have hdepth : areaDepth 0 c = 0 := by simp [areaDepth, hc]
    rw [List.cons_append, constantArea_cons, hdepth, ih hcs]
    simp [hc]

theorem passed_blank {cs : List Char} (h : cs.all isBlank = true) : Passed cs := by
  refine passed_plain fun c hc => ?_
  have hblank : isBlank c = true := List.all_eq_true.1 h c hc
  refine ⟨isPlain_of_isBlank hblank, ?_⟩
  rintro rfl
  exact absurd hblank (by decide)

theorem passed_name {cs : List Char} (h : IsName cs) : Passed cs :=
  passed_plain fun _ hc => ⟨isPlain_of_isNameChar (h.mem hc), h.ne_of_mem hc (by decide)⟩

theorem passed_intercalate {ts : List (List Char)} (h : ∀ t ∈ ts, Passed t) :
    Passed (List.intercalate [','] ts) := by
  induction ts with
  | nil => exact passed_nil
  | cons t ts ih =>
    obtain ⟨ht, hts⟩ := List.forall_mem_cons.1 h
    cases ts with
    | nil => simpa using ht
    | cons t' ts =>
      rw [List.intercalate_cons_cons]
      exact (ht.append fun _ => rfl).append (ih hts)

/-- Nested arguments and bodies are passed, whatever else they hold. -/
theorem passed_group {cs : List Char} (hcs : nested codeBrackets cs = true) {p : Char × Char}
    (hp : p ∈ [('(', ')'), ('{', '}')]) : Passed (p.1 :: (cs ++ [p.2])) := by
  intro ds
  simp only [List.mem_cons, List.not_mem_nil, or_false] at hp
  have hopen : constantArea 0 (p.1 :: (cs ++ p.2 :: ds)) =
      p.1 :: constantArea 1 (cs ++ p.2 :: ds) := by
    rcases hp with rfl | rfl <;> rfl
  have hclose : constantArea 1 (p.2 :: ds) = p.2 :: constantArea 0 ds := by
    rcases hp with rfl | rfl <;> rfl
  have hinner := constantArea_of_stays (steady_areaDepth.stays hcs 1) (p.2 :: ds)
  rw [steady_areaDepth.foldl_eq hcs, hclose] at hinner
  simp [hopen, hinner]

end Declaration

open Declaration

theorem EnumSlot.passed_chars (s : EnumSlot) : Passed s.chars :=
  s.chars_induction .append passed_blank passed_name fun e _ _ hp => passed_group e.closed hp

/-- The list of constants ends at the first semicolon or closing brace behind it. -/
theorem EnumOutline.constantArea_list (o : EnumOutline) {terminator : Char}
    (hterminator : terminator = ';' ∨ terminator = '}') (rest : List Char) :
    constantArea 0 (o.list ++ terminator :: rest) = o.list := by
  have hpassed : Passed o.list := passed_intercalate fun t ht => by
    obtain ⟨s, -, rfl⟩ := List.mem_map.1 ht
    exact s.passed_chars
  have hend : constantArea 0 (terminator :: rest) = [] := by
    rcases hterminator with rfl | rfl <;> rfl
  rw [hpassed, hend, List.append_nil]

/-! ## The pieces of the list -/

/-- The names that a part of the list gives, one for each piece that starts with a name. -/
def pieceNames (cs : List Char) : List String :=
  (pieces ',' cs).filterMap fun piece => leadingName? (trim piece)

theorem leadingName?_trim {before name w : List Char} (hbefore : before.all isBlank = true)
    (hname : IsName name) (hw : Stops isNameChar w) :
    leadingName? (trim (before ++ (name ++ w))) = some (String.ofList name) := by
  have hstart : trimStart (before ++ (name ++ w)) = name ++ w :=
    dropWhile_append_of_stops (List.all_eq_true.1 hbefore) (hname.stops_blank w)
  have hend : trimEnd (name ++ w) = name ++ trimEnd w :=
    trimEnd_append_right w fun _ hc => isBlank_of_isNameChar (hname.mem hc)
  have hstops : Stops isNameChar (trimEnd w) := by
    obtain ⟨gap, -, hgap⟩ := exists_trimEnd_append w
    exact hw.front ⟨gap, hgap.symm⟩
  rw [trim, hstart, hend, leadingName?, ofText_eq, name?_between [] hname hstops, Option.map_some]

/-- A name behind blanks is in the first piece. -/
theorem pieceNames_name {before name w : List Char} (hbefore : before.all isBlank = true)
    (hname : IsName name) (hw : Stops isNameChar w) :
    pieceNames (before ++ (name ++ w)) =
      String.ofList name :: (pieces ',' (before ++ (name ++ w))).tail.filterMap fun piece =>
        leadingName? (trim piece) := by
  have hplain : ∀ c ∈ before ++ name, isPlain c = true := fun c hc =>
    (List.mem_append.1 hc).elim (fun hc => isPlain_of_isBlank (List.all_eq_true.1 hbefore c hc))
      fun hc => isPlain_of_isNameChar (hname.mem hc)
  obtain ⟨q, qs, hq⟩ := List.exists_cons_of_ne_nil (pieces_ne_nil ',' w)
  have hpieces : pieces ',' (before ++ (name ++ w)) = (before ++ (name ++ q)) :: qs := by
    have happend : pieces ',' (before ++ name ++ w) = (before ++ name).foldr extendFirst _ :=
      (uncut_plain 0 hplain).piecesFrom_append w
    have hrest : piecesFrom ',' 0 w = q :: qs := hq
    rw [depthBehind_plain 0 hplain, hrest, foldr_extendFirst] at happend
    simpa using happend
  have hfirst := leadingName?_trim hbefore hname (hw.front (prefix_of_piecesFrom hq))
  rw [pieceNames, hpieces, List.filterMap_cons, hfirst, List.tail_cons]

theorem stops_blank_append {gap w : List Char} (hgap : gap.all isBlank = true)
    (hw : Stops isNameChar w) : Stops isNameChar (gap ++ w) := by
  cases gap with
  | nil => exact hw
  | cons c gap => exact stops_cons.2 (isNameChar_of_isBlank (List.all_eq_true.1 hgap c (by simp)))

/-- Behind its name a constant goes on with a bracket or a blank. -/
theorem EnumConstant.stops_parts (c : EnumConstant) {w : List Char} (hw : Stops isNameChar w) :
    Stops isNameChar (c.parts ++ w) := by
  unfold EnumConstant.parts
  cases c.arguments? with
  | some e =>
    simp only [Option.elim_some, Bracketed.chars, List.append_assoc]
    exact stops_blank_append e.blank (stops_cons.2 (by decide))
  | none =>
    cases c.body? with
    | some e =>
      simp only [Option.elim_none, Option.elim_some, Bracketed.chars, List.nil_append,
        List.append_assoc]
      exact stops_blank_append e.blank (stops_cons.2 (by decide))
    | none => exact hw

/-- A slot gives the name of its constant, and then the stray names. -/
theorem EnumSlot.pieceNames_chars (s : EnumSlot) :
    pieceNames s.chars = s.name?.toList ++ s.strayNames := by
  obtain ⟨hbefore, hafter⟩ : s.before.all isBlank = true ∧ s.after.all isBlank = true := by
    simpa [List.all_append] using s.blank
  unfold EnumSlot.strayNames EnumSlot.name? EnumSlot.chars
  cases s.constant? with
  | none =>
    have hwhole : pieces ',' (s.before ++ s.after) = [s.before ++ s.after] :=
      uncut_plain 0 fun c hc => isPlain_of_isBlank (List.all_eq_true.1 s.blank c hc)
    have hnone : leadingName? [] = none := rfl
    simp [pieceNames, hwhole, trim_blank s.blank, hnone]
  | some c =>
    have hstops : Stops isNameChar (c.parts ++ s.after) :=
      c.stops_parts (by simpa using stops_blank_append hafter stops_nil)
    have hnames := pieceNames_name hbefore c.isName hstops
    simpa [EnumConstant.chars] using hnames

/-- With nested angle brackets, the commas of a slot stand inside its brackets. -/
theorem EnumSlot.enclosed_chars (s : EnumSlot) (h : s.anglesNested = true) : Enclosed s.chars := by
  refine s.chars_induction .append .blank .name fun part hpart p hp => ?_
  have hnested : nested typeBrackets part.inner = true := List.all_eq_true.1 h part hpart
  have hpair : (p.1, p.2) ∈ typeBrackets := by
    simp only [List.mem_cons, List.not_mem_nil, or_false] at hp
    rcases hp with rfl | rfl <;> decide
  exact .group hpair hnested

/-! ## The enumeration -/

namespace EnumOutline

/-- Where the slots end at depth zero, they give their names one after the other. -/
theorem pieceNames_list (o : EnumOutline)
    (h : ∀ s ∈ o.slots.dropLast, depthBehind 0 s.chars = 0) :
    pieceNames o.list = o.slots.flatMap fun s => s.name?.toList ++ s.strayNames := by
  by_cases hnil : o.slots = []
  · rw [list, hnil]
    rfl
  · have hne : o.slots.map (·.chars) ≠ [] := by simpa using hnil
    have hdepth : ∀ t ∈ (o.slots.map (·.chars)).dropLast, depthBehind 0 t = 0 := by
      rw [← List.map_dropLast]
      exact List.forall_mem_map.2 h
    have hpieces : pieces ',' o.list = (o.slots.map (·.chars)).flatMap (pieces ',') :=
      pieces_intercalate (by decide) (by decide) hne hdepth
    rw [pieceNames, hpieces, List.flatMap_map, List.filterMap_flatMap]
    exact List.flatMap_congr fun s _ => s.pieceNames_chars

theorem names_eq_flatMap (o : EnumOutline) : o.names = o.slots.flatMap (·.name?.toList) := by
  rw [names, List.filterMap_eq_flatMap_toList]

/-- Nothing is added to the names exactly if there are no stray names. -/
theorem flatMap_strayNames_iff (slots : List EnumSlot) :
    (slots.flatMap fun s => s.name?.toList ++ s.strayNames) = slots.flatMap (·.name?.toList) ↔
      ∀ s ∈ slots, s.strayNames = [] := by
  have hlength : (slots.flatMap fun s => s.name?.toList ++ s.strayNames).length =
      (slots.flatMap (·.name?.toList)).length + (slots.flatMap (·.strayNames)).length := by
    induction slots with
    | nil => rfl
    | cons s slots ih =>
      simp only [List.flatMap_cons, List.length_append, ih]
      omega
  constructor
  · intro heq
    rw [heq, Nat.left_eq_add, List.length_eq_zero_iff] at hlength
    exact List.flatMap_eq_nil_iff.1 hlength
  · intro h
    exact List.flatMap_congr fun s hs => by rw [h s hs, List.append_nil]

/-- The declaration of the enumeration, in front of `w`. -/
def declaration (o : EnumOutline) (w : List Char) : Declaration where
  kind := .enumType
  name := String.ofList o.name
  start := between [] (o.chars ++ w)
  stop := between ("enum".toList ++ [' '] ++ o.name) (o.header ++ '{' :: (o.list ++ w))

theorem find?_chars (o : EnumOutline) (w : List Char) :
    Declaration.find? (o.chars ++ w) = some (o.declaration w) := by
  have htext : o.chars ++ w =
      "enum".toList ++ ' ' :: (o.name ++ (o.header ++ '{' :: (o.list ++ w))) := by
    simp [chars]
  have hstops : Stops isNameChar (o.header ++ '{' :: (o.list ++ w)) := by
    have hheader := o.stops
    cases hcs : o.header with
    | nil => exact stops_cons.2 (by decide)
    | cons c cs =>
      rw [hcs] at hheader
      exact stops_cons.2 (stops_cons.1 hheader)
  have hread : Declaration.at? [.classType, .enumType] (between [] (o.chars ++ w)) =
      some (o.declaration w) := by
    have hclass : (between [] (o.chars ++ w)).token? ClassifierKind.classType.keyword = none :=
      token?_of_stops _ rfl (by rw [htext]; exact stops_cons.2 (by decide))
    have henum : (between [] (o.chars ++ w)).token? ClassifierKind.enumType.keyword =
        some (between ([] ++ "enum".toList)
          (' ' :: (o.name ++ (o.header ++ '{' :: (o.list ++ w))))) := by
      rw [htext]
      exact token?_between [] "enum" _
    have hname := name?_between ([] ++ "enum".toList ++ [' ']) o.isName hstops
    have hword : (between [] (o.chars ++ w)).atWordStart = true := rfl
    simp only [Declaration.at?, hword, guard, if_true, List.findSome?_cons, hclass, henum,
      skipSome?_blank_name _ o.isName, hname, Option.bind_eq_bind, Option.bind_some,
      Option.bind_none, Option.pure_def]
    rfl
  unfold Declaration.find?
  rw [ofText_eq, find?_here hread, Option.some_or]

theorem constants_declaration (o : EnumOutline) {terminator : Char}
    (hterminator : terminator = ';' ∨ terminator = '}') (rest : List Char) :
    (o.declaration (terminator :: rest)).constants = pieceNames o.list := by
  have hheader : ∀ c ∈ o.header, (c != '{') = true := fun c hc =>
    bne_iff_ne.2 fun h => o.noBrace (h ▸ hc)
  have hbody : (o.declaration (terminator :: rest)).stop.rest.dropWhile (· != '{') =
      '{' :: (o.list ++ terminator :: rest) :=
    dropWhile_append_of_stops hheader (stops_cons.2 (by decide))
  rw [Declaration.constants, hbody]
  simp only [o.constantArea_list hterminator rest]
  rfl

end EnumOutline

/-- **Reading the constants of an enumeration**: the list that is read is the one that was written,
whatever the arguments and the bodies hold. If no slot but the last leaves a bracket open to the
count of all four kinds, the names of the constants come back in order, with nothing added exactly if
no slot has stray names. Both are the case where angle brackets are nested as well. -/
theorem constants_enumeration (o : EnumOutline) {terminator : Char}
    (hterminator : terminator = ';' ∨ terminator = '}') (rest : List Char) :
    ∃ d, Declaration.find? (o.chars ++ terminator :: rest) = some d ∧
      d.kind = .enumType ∧ d.name = String.ofList o.name ∧ d.constants = pieceNames o.list ∧
      ((∀ s ∈ o.slots.dropLast, depthBehind 0 s.chars = 0) →
        (d.constants = o.names ↔ ∀ s ∈ o.slots, s.strayNames = [])) ∧
      ((∀ s ∈ o.slots, s.anglesNested = true) → d.constants = o.names) := by
  have hconstants := o.constants_declaration hterminator rest
  have hiff (h : ∀ s ∈ o.slots.dropLast, depthBehind 0 s.chars = 0) :
      (o.declaration (terminator :: rest)).constants = o.names ↔
        ∀ s ∈ o.slots, s.strayNames = [] := by
    rw [hconstants, o.pieceNames_list h, o.names_eq_flatMap, EnumOutline.flatMap_strayNames_iff]
  refine ⟨o.declaration (terminator :: rest), o.find?_chars _, rfl, rfl, hconstants, hiff, ?_⟩
  intro hnested
  have hdepth : ∀ s ∈ o.slots.dropLast, depthBehind 0 s.chars = 0 := fun s hs =>
    (s.enclosed_chars (hnested s (List.mem_of_mem_dropLast hs))).depth
  refine (hiff hdepth).2 fun s hs => ?_
  have hwhole : pieces ',' s.chars = [s.chars] := (s.enclosed_chars (hnested s hs)).uncut
  simp [EnumSlot.strayNames, hwhole]

/-- Three constants and a comma too many, in front of a semicolon. -/
def levels : EnumOutline where
  name := "Level".toList
  header := " implements Coded ".toList
  slots :=
    [{ before := [' ']
       constant? := some
        { name := "LOW".toList
          arguments? := some { gap := [], inner := "1, new int[] \x7b2, 3\x7d".toList }
          body? := none }
       after := [] },
     { before := ['\n']
       constant? := some
        { name := "HIGH".toList
          arguments? := some { gap := [' '], inner := "Map.<Key, Value>of(), f(4)".toList }
          body? := some { gap := [' '], inner := " int f(int a, int b) \x7b g(); \x7d ".toList } }
       after := [' '] },
     { before := [' ']
       constant? := some { name := "$MAX".toList, arguments? := none, body? := none }
       after := [] },
     { before := [], constant? := none, after := ['\n'] }]

theorem constants_enumeration_levels :
    ∃ d, Declaration.find? (levels.chars ++ ';' :: "int code; \x7d".toList) = some d ∧
      d.constants = ["LOW", "HIGH", "$MAX"] := by
  obtain ⟨d, hd, -, -, -, -, hnames⟩ :=
    constants_enumeration levels (.inl rfl) "int code; \x7d".toList
  exact ⟨d, hd, hnames (by decide)⟩

def flags : EnumOutline where
  name := "Flag".toList
  header := [' ']
  slots :=
    [{ before := [' ']
       constant? := some
        { name := "READ".toList, arguments? := some { gap := [], inner := "1 << 0".toList }
          body? := none }
       after := [] },
     { before := [' ']
       constant? := some
        { name := "WRITE".toList, arguments? := some { gap := [], inner := "1 << 1".toList }
          body? := none }
       after := [' '] }]

def operations : EnumOutline where
  name := "Operation".toList
  header := [' ']
  slots :=
    [{ before := [' ']
       constant? := some
        { name := "KEEP".toList, arguments? := some { gap := [], inner := "x -> x, limit".toList }
          body? := none }
       after := [' '] }]

/-- A shift opens two brackets to the count, and the constant behind it is lost. An arrow closes the
parenthesis to the count, and the argument behind it is taken for a constant. -/
theorem not_constants_enumeration_operators :
    (flags.names = ["READ", "WRITE"] ∧
      (Declaration.find? (flags.chars ++ ['}'])).map (·.constants) = some ["READ"]) ∧
    operations.names = ["KEEP"] ∧
      (Declaration.find? (operations.chars ++ ['}'])).map (·.constants) =
        some ["KEEP", "limit"] := by
  decide +kernel

end ClassDiagram.Source
