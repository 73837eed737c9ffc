import ClassDiagram.Proofs.Source.Block
import ClassDiagram.Proofs.Source.Constants
import ClassDiagram.Proofs.Source.Progress
import ClassDiagram.Proofs.Source.Supertypes
import ClassDiagram.Source.Parameter

/-!
# Declarations and blocks by offsets

The parts of a declaration and the block behind a signature, cut out of the text between offsets
that loops over its characters or bytes have counted. Each of them is defined at every position
between two characters, and is what is read there from the characters.

Two loops lower a counter of open brackets. In the list of constants a closing brace at depth zero
ends the list before the counter is lowered (`ByOffset.areaEnd_eq`); a closing parenthesis may
come at depth zero, and there the counter stays. In a block the opening brace is counted first, and
the loop ends when the counter is back at zero (`ByOffset.closing?_of_search`).
-/

namespace ClassDiagram.ByOffset

open Text Source

/-! ## The header -/

/-- `angleList?` from an offset on, at the given depth. -/
def angleListFrom? (text : List Char) :
    (depth offset : Nat) → List Char → Except Fault (Option (List Char × List Char))
  | _, _, [] => .ok none
  | depth, offset, c :: cs =>
    let next := offset + c.utf8Size
    if c == '<' then angleListFrom? text (depth + 1) next cs
    else if c == '>' then
      if depth - 1 = 0 then do
        return some (← slice text 1 offset, ← sliceFrom text (offset + 1))
      else angleListFrom? text (depth - 1) next cs
    else angleListFrom? text depth next cs

/-- Splits a leading list in angle brackets off a text. -/
def angleList? (text : List Char) : Except Fault (Option (List Char × List Char)) :=
  if text.head? == some '<' then angleListFrom? text 0 0 text else .ok none

/-- Inside the list, with `p` read of it. -/
theorem angleListFrom?_eq {text p cs : List Char} (htext : text = '<' :: p ++ cs) {depth : Nat}
    (hdepth : 1 ≤ depth) :
    angleListFrom? text depth (byteSize ('<' :: p)) cs =
      .ok ((Declaration.angleListFrom? depth cs).map fun list => (p ++ list.1, list.2)) := by
  induction cs generalizing depth p with
  | nil => rfl
  | cons c cs ih =>
    have hnext {depth : Nat} (hdepth : 1 ≤ depth) :
        angleListFrom? text depth (byteSize ('<' :: p) + c.utf8Size) cs =
          .ok ((Declaration.angleListFrom? depth cs).map fun list => (p ++ c :: list.1, list.2)) := by
      rw [← byteSize_concat, List.cons_append, ih (by simp [htext]) hdepth]
      simp
    rw [angleListFrom?, Declaration.angleListFrom?_cons, angleDepth]
    by_cases hopening : c = '<'
    · subst hopening
      simpa [Function.comp_def] using hnext (Nat.le_succ_of_le hdepth)
    by_cases hclosing : c = '>'
    · subst hclosing
      by_cases hlast : depth ≤ 1
      · -- the list ends here
        have hinner : slice text 1 (byteSize ('<' :: p)) = .ok p := by
          rw [htext]
          exact slice_append ['<'] p ('>' :: cs)
        have hafter : sliceFrom text (byteSize ('<' :: p) + 1) = .ok cs := by
          have hsize : byteSize ('<' :: p ++ ['>']) = byteSize ('<' :: p) + 1 := byteSize_concat _ _
          rw [← hsize, htext, ← sliceFrom_append ('<' :: p ++ ['>']) cs]
          simp
        have hzero : depth - 1 = 0 := by omega
        simp [hlast, hzero, hinner, hafter]
      · have hpositive : ¬ depth - 1 = 0 := by omega
        have hdeeper : 1 ≤ depth - 1 := by omega
        simpa [hlast, hpositive, Function.comp_def] using hnext hdeeper
    · simpa [hopening, hclosing, Function.comp_def] using hnext hdepth

@[simp] theorem angleList?_eq (text : List Char) :
    angleList? text = .ok (Declaration.angleList? text) := by
  unfold angleList? Declaration.angleList?
  split
  next hhead =>
    obtain ⟨cs, rfl⟩ := List.head?_eq_some_iff.1 (eq_of_beq hhead)
    have htext : '<' :: cs = '<' :: [] ++ cs := rfl
    have hinside := angleListFrom?_eq htext (Nat.le_refl 1)
    simpa [angleListFrom?, byteSize_cons] using hinside
  next hhead =>
    split
    · simp at hhead
    · rfl

/-- The part of a text in front of the first brace. -/
def beforeBrace (text : List Char) : Except Fault (List Char) :=
  match offsetOf? '{' text with
  | some brace => slice text 0 brace
  | none => .ok text

@[simp] theorem beforeBrace_eq (text : List Char) :
    beforeBrace text = .ok (text.takeWhile (· != '{')) := by
  unfold beforeBrace
  rcases offsetOf?_cases '{' text with ⟨hnone, htake, -⟩ | ⟨v, w, rfl, hsome, htake, -⟩
  · simp [hnone, htake]
  · simpa [hsome, htake] using slice_append [] v ('{' :: w)

/-- The text after the name, from its first character that is not blank. -/
def afterName (text : List Char) (d : Declaration) : Except Fault (List Char) := do
  return trimStart (← sliceFrom text d.stop.offset)

/-- The header of a declaration. -/
def header (text : List Char) (d : Declaration) : Except Fault (List Char) := do
  let rest ← afterName text d
  match ← angleList? rest with
  | some (_, after) => beforeBrace after
  | none => beforeBrace rest

/-- The names of the type parameters of a declaration. -/
def typeParameters (text : List Char) (d : Declaration) : Except Fault (List String) := do
  match ← angleList? (← afterName text d) with
  | none => return []
  | some (list, _) =>
    let heads := (← pieces ',' list).filterMap fun piece => (words piece).head?
    return (heads.filter fun name => name.all isTypeParameterChar).map String.ofList

/-- The supertypes named in a header. -/
def supertypes (header : List Char) : Except Fault Supertypes := do
  let parent? := ((Cursor.ofText header).find? Supertypes.parentAt?).map String.ofList
  match (Cursor.ofText header).find? Supertypes.listAt? with
  | none => return ⟨parent?, []⟩
  | some list => return ⟨parent?, (← pieces ',' list).filterMap Supertypes.interface?⟩

@[simp] theorem supertypes_eq (header : List Char) :
    supertypes header = .ok (Supertypes.ofHeader header) := by
  unfold supertypes Supertypes.ofHeader
  cases (Cursor.ofText header).find? Supertypes.listAt? <;> simp

/-- A parameter list. -/
def parameters (cs : List Char) : Except Fault (List Parameter) := do
  return (← pieces ',' cs).filterMap parameter?

@[simp] theorem parameters_eq (cs : List Char) : parameters cs = .ok (Source.parameters cs) := by
  simp [parameters, Source.parameters]

/-! ## Constants -/

/-- Where the list of constants ends, from an offset on and at the given depth. -/
def areaEnd : (depth offset : Nat) → List Char → Except Fault Nat
  | _, offset, [] => .ok offset
  | depth, offset, c :: cs =>
    let next := offset + c.utf8Size
    if c == '(' || c == '{' then areaEnd (depth + 1) next cs
    else if c == ')' then areaEnd (depth - 1) next cs
    else if c == '}' then
      if depth == 0 then .ok offset else do areaEnd (← lower depth) next cs
    else if c == ';' && depth == 0 then .ok offset
    else areaEnd depth next cs

theorem areaEnd_eq (depth offset : Nat) (cs : List Char) :
    areaEnd depth offset cs = .ok (offset + byteSize (Declaration.constantArea depth cs)) := by
  induction cs generalizing depth offset with
  | nil => rfl
  | cons c cs ih =>
    have hnext (depth : Nat) : areaEnd depth (offset + c.utf8Size) cs =
        .ok (offset + byteSize (c :: Declaration.constantArea depth cs)) := by
      rw [ih, byteSize_cons, Nat.add_assoc]
    rw [areaEnd, Declaration.constantArea_cons, Declaration.areaDepth]
    by_cases hopening : c = '(' ∨ c = '{'
    · have hinside : c ≠ '}' ∧ c ≠ ';' := by rcases hopening with rfl | rfl <;> decide
      simpa [hopening, hinside] using hnext (depth + 1)
    by_cases hparenthesis : c = ')'
    · subst hparenthesis
      simpa using hnext (depth - 1)
    by_cases hbrace : c = '}'
    · subst hbrace
      cases depth with
      | zero => simp
      | succ depth => simpa [lower] using hnext depth
    by_cases hsemicolon : c = ';'
    · subst hsemicolon
      cases depth with
      | zero => simp
      | succ depth => simpa using hnext (depth + 1)
    · simpa [hopening, hparenthesis, hbrace, hsemicolon] using hnext depth

theorem front_constantArea (depth : Nat) (cs : List Char) :
    Declaration.constantArea depth cs <+: cs := by
  induction cs generalizing depth with
  | nil => exact List.prefix_rfl
  | cons c cs ih =>
    rw [Declaration.constantArea_cons]
    split
    · exact List.nil_prefix
    · exact List.cons_prefix_cons.2 ⟨rfl, ih _⟩

/-- The constants listed in the body of an enumeration. -/
def constants (text : List Char) (d : Declaration) : Except Fault (List String) := do
  let rest ← sliceFrom text d.stop.offset
  match offsetOf? '{' rest with
  | none => return []
  | some brace =>
    let body ← sliceFrom rest (brace + 1)
    let area ← slice body 0 (← areaEnd 0 0 body)
    return (← pieces ',' area).filterMap fun piece => Declaration.leadingName? (trim piece)

/-! ## The parts of the declaration of a text -/

section Declared

variable {text : List Char} {d : Declaration} (hd : Declaration.find? text = some d)

include hd

theorem sliceFrom_stop : sliceFrom text d.stop.offset = .ok d.stop.rest := by
  obtain ⟨u, p, w, -, rfl, -, hstop⟩ := Declaration.exists_parts_of_find? hd
  rw [hstop]
  exact sliceFrom_append (u ++ p) w

theorem afterName_eq : afterName text d = .ok d.afterName := by
  rw [afterName, sliceFrom_stop hd]
  rfl

theorem header_eq : header text d = .ok d.header := by
  simp only [header, afterName_eq hd, Declaration.header, ok_bind, angleList?_eq]
  cases Declaration.angleList? d.afterName <;> simp

theorem typeParameters_eq : typeParameters text d = .ok d.typeParameters := by
  simp only [typeParameters, afterName_eq hd, Declaration.typeParameters, ok_bind, angleList?_eq]
  cases Declaration.angleList? d.afterName <;> simp

theorem constants_eq : constants text d = .ok d.constants := by
  simp only [constants, sliceFrom_stop hd, Declaration.constants, ok_bind]
  rcases offsetOf?_cases '{' d.stop.rest with
    ⟨hnone, -, hdrop⟩ | ⟨v, body, hrest, hsome, -, hdrop⟩
  · simp [hnone, hdrop]
  · have hbody : sliceFrom d.stop.rest (byteSize v + 1) = .ok body := by
      have hsize : byteSize (v ++ ['{']) = byteSize v + 1 := byteSize_concat v '{'
      rw [← hsize, hrest, ← sliceFrom_append (v ++ ['{']) body]
      simp
    have harea : slice body 0 (byteSize (Declaration.constantArea 0 body)) =
        .ok (Declaration.constantArea 0 body) := by
      obtain ⟨w, hw⟩ := front_constantArea 0 body
      have happend := slice_append [] (Declaration.constantArea 0 body) w
      rw [List.nil_append, hw] at happend
      exact happend
    simp [hsome, hbody, hdrop, areaEnd_eq, harea]

end Declared

/-! ## Blocks -/

/-- The offset of the brace that closes a block, from an offset on: at the given depth and, when
`quote?` is a quote, inside a literal that this quote closes. -/
def closing? : (depth : Nat) → (quote? : Option Char) → (offset : Nat) → (bytes : List Char) →
    Except Fault (Option Nat)
  | _, _, _, [] => .ok none
  | depth, some quote, offset, b :: bs =>
    if b == quote then closing? depth none (offset + 1) bs
    else if b == '\\' then
      match bs with
      | [] => .ok none
      | _ :: bs => closing? depth (some quote) (offset + 2) bs
    else closing? depth (some quote) (offset + 1) bs
  | depth, none, offset, b :: bs =>
    if b == '{' then closing? (depth + 1) none (offset + 1) bs
    else if b == '}' then do
      let depth ← lower depth
      if depth = 0 then return some offset else closing? depth none (offset + 1) bs
    else if b == '"' || b == '\'' then closing? depth (some b) (offset + 1) bs
    else closing? depth none (offset + 1) bs

/-- The contents of the block that opens at an offset, found on the bytes of the text. -/
def block? (text : List Char) (opening : Nat) : Except Fault (Option (List Char)) := do
  let rest ← sliceFrom text opening
  if rest.head? == some '{' then
    match ← closing? 0 none opening (bytes rest) with
    | some stop => return some (← slice text (opening + 1) stop)
    | none => return some (← sliceFrom text (opening + 1))
  else return none

/-- The loop ends at the brace behind `b`, or at the end of the bytes if `b` is all of them. -/
def EndsAt (depth : Nat) (quote? : Option Quote) (offset : Nat) (bs b : List Char) : Prop :=
  (bs = b ∧ closing? depth (quote?.map Quote.char) offset bs = .ok none) ∨
    ∃ rest, bs = b ++ '}' :: rest ∧
      closing? depth (quote?.map Quote.char) offset bs = .ok (some (offset + b.length))

/-- One more byte, or two behind a backslash, in front. -/
theorem EndsAt.append {depth depth' : Nat} {quote? quote'? : Option Quote} {offset : Nat}
    (v : List Char) {bs b : List Char}
    (hstep : closing? depth (quote?.map Quote.char) offset (v ++ bs) =
      closing? depth' (quote'?.map Quote.char) (offset + v.length) bs)
    (h : EndsAt depth' quote'? (offset + v.length) bs b) :
    EndsAt depth quote? offset (v ++ bs) (v ++ b) := by
  rcases h with ⟨rfl, hend⟩ | ⟨rest, rfl, hend⟩
  · exact .inl ⟨rfl, hstep.trans hend⟩
  · refine .inr ⟨rest, by simp, ?_⟩
    rw [hstep, hend, List.length_append, Nat.add_assoc]

theorem closing?_literal (depth : Nat) (quote : Char) (offset : Nat) {b : Char} (bs : List Char)
    (hb : b ≠ '\\') :
    closing? depth (some quote) offset (b :: bs) =
      closing? depth (if b == quote then none else some quote) (offset + 1) bs := by
  have hstep : closing? depth (some quote) offset (b :: bs) =
      if b == quote then closing? depth none (offset + 1) bs
      else closing? depth (some quote) (offset + 1) bs := by
    cases bs <;> simp [closing?, hb]
  rw [hstep]
  split <;> rfl

theorem closing?_of_search {depth : Nat} {quote? : Option Quote} {bs b : List Char}
    (h : Search depth quote? bs b) (hdepth : 0 < depth) (offset : Nat) :
    EndsAt depth quote? offset bs b := by
  induction h generalizing offset with
  | done => exact .inl ⟨rfl, by simp [closing?]⟩
  | @close cs => exact .inr ⟨cs, rfl, by simp [closing?, lower]⟩
  | opening _ ih => exact .append ['{'] (by simp [closing?]) (ih (by omega) _)
  | closing _ ih => exact .append ['}'] (by simp [closing?, lower]) (ih (by omega) _)
  | @enter _ quote _ _ _ ih =>
    refine .append [quote.char] ?_ (ih hdepth _)
    cases quote <;> simp [closing?, Quote.char]
  | @code _ c _ _ hopening hclosing hquote _ ih =>
    have hdouble : c ≠ '"' := Quote.ofChar?_eq_none_iff.1 hquote .double
    have hsingle : c ≠ '\'' := Quote.ofChar?_eq_none_iff.1 hquote .single
    exact .append [c] (by simp [closing?, hopening, hclosing, hdouble, hsingle]) (ih hdepth _)
  | @leave _ quote _ _ _ ih =>
    have hbackslash := quote.char_ne_backslash.symm
    exact .append [quote.char] (by simp [closing?_literal, hbackslash]) (ih hdepth _)
  | @escape _ quote c _ _ _ ih =>
    have hbackslash := quote.char_ne_backslash
    exact .append ['\\', c] (by simp [closing?, hbackslash]) (ih hdepth _)
  | @backslash _ quote =>
    have hbackslash := quote.char_ne_backslash
    exact .inl ⟨rfl, by simp [closing?, hbackslash]⟩
  | @literal _ quote c _ _ hquote hbackslash _ ih =>
    exact .append [c] (by simp [closing?_literal, hquote, hbackslash]) (ih hdepth _)

theorem length_bytes (cs : List Char) : (bytes cs).length = byteSize cs := by
  induction cs with
  | nil => rfl
  | cons c cs ih =>
    rw [bytes_cons, List.length_append, ih, byteSize_cons, byteChars, List.length_map,
      String.length_utf8EncodeChar]

/-- From every position of a text the block is found by offsets. -/
theorem block?_eq (u v : List Char) :
    block? (u ++ v) (byteSize u) = .ok (Source.block? (.between u v)) := by
  rw [block?, sliceFrom_append]
  by_cases hhead : v.head? = some '{'
  · obtain ⟨cs, rfl⟩ := List.head?_eq_some_iff.1 hhead
    have hblock : Source.block? (.between u ('{' :: cs)) = some (blockFrom 1 none cs) := rfl
    have hstops := (stopsAt_blockFrom cs).stops
    have hsearch := (search_blockFrom Nat.one_pos none cs).bytes
    rw [Option.map_none] at hsearch
    generalize blockFrom 1 none cs = b at hblock hstops hsearch
    have hfirst : closing? 0 none (byteSize u) (bytes ('{' :: cs)) =
        closing? 1 none (byteSize u + 1) (bytes cs) := by
      have hbrace : byteChars '{' = ['{'] := rfl
      simp [bytes_cons, hbrace, closing?]
    have hsize : byteSize u + 1 = byteSize (u ++ ['{']) := (byteSize_concat u '{').symm
    have hstop : byteSize u + 1 + (bytes b).length = byteSize (u ++ '{' :: b) := by
      rw [length_bytes, hsize, ← byteSize_append, List.append_assoc, List.singleton_append]
    rcases closing?_of_search hsearch Nat.one_pos (byteSize u + 1) with
      ⟨hbytes, hend⟩ | ⟨rest, hbytes, hend⟩
    · -- the block reaches to the end of the text
      have hall : cs = b := by
        rcases hstops with hall | ⟨c, rest, rfl, -⟩
        · exact hall
        · have hlength := congrArg List.length hbytes
          have hpos := byteSize_pos (List.cons_ne_nil c rest)
          rw [length_bytes, length_bytes, byteSize_append] at hlength
          omega
      subst hall
      have hslice : sliceFrom (u ++ '{' :: cs) (byteSize u + 1) = .ok cs := by
        rw [hsize, ← sliceFrom_append (u ++ ['{']) cs]
        simp
      rw [Option.map_none] at hend
      simp [hfirst, hend, hslice, hblock]
    · -- the block ends in front of a brace
      obtain ⟨tail, rfl⟩ : ∃ tail, cs = b ++ tail := by
        rcases hstops with hall | ⟨c, tail, hcs, -⟩
        · exact ⟨[], by simp [hall]⟩
        · exact ⟨c :: tail, hcs⟩
      have hslice : slice (u ++ '{' :: (b ++ tail)) (byteSize u + 1)
          (byteSize (u ++ '{' :: b)) = .ok b := by
        rw [hsize, ← slice_append (u ++ ['{']) b tail]
        simp
      rw [Option.map_none, hstop] at hend
      simp [hfirst, hend, hslice, hblock]
  · have hblock : Source.block? (.between u v) = none := block?_eq_none_iff.2 hhead
    simp [hhead, hblock]

end ClassDiagram.ByOffset
