import ClassDiagram.Text.CharClass

/-!
# Reading positions

A cursor stands somewhere in a text: it knows how many bytes of UTF-8 were passed, which character
was passed last, and what is still unread. Offsets are a measure on the characters passed, so a
cursor always stands between two characters.

* `Cursor.At`: the cursor stands in the given text;
* `Cursor.find?`: the leftmost position at which a reading succeeds;
* `Cursor.cut`: the text without the parts that a reading passes;
* `Cursor.scan`: the readings that succeed from left to right, each one starting no earlier than
  the offset at which the one before it lets the search resume;
* `Cursor.iterates`: the positions reached by repeating a step, nearest first.
-/

namespace ClassDiagram.Text

/-- The size of a text in bytes of UTF-8. -/
def byteSize (cs : List Char) : Nat := cs.foldr (fun c n => c.utf8Size + n) 0

theorem byteSize_append (cs ds : List Char) :
    byteSize (cs ++ ds) = byteSize cs + byteSize ds := by
  unfold byteSize
  induction cs with
  | nil => simp
  | cons c cs ih => rw [List.cons_append, List.foldr_cons, List.foldr_cons, ih, Nat.add_assoc]

/-- The longest leading part whose characters start before `n` bytes. -/
def takeBytes : Nat → List Char → List Char
  | 0, _ => []
  | _, [] => []
  | n + 1, c :: cs => c :: takeBytes (n + 1 - c.utf8Size) cs

/-- A position in a text. -/
structure Cursor where
  /-- The number of bytes passed. -/
  offset : Nat
  /-- The character passed last. -/
  previous : Option Char
  /-- What is still unread. -/
  rest : List Char
  deriving Repr, DecidableEq

namespace Cursor

/-- The cursor stands in `text`: what was passed, and its size and last character, fit. -/
def At (text : List Char) (k : Cursor) : Prop :=
  ∃ passed, text = passed ++ k.rest ∧ k.offset = byteSize passed ∧ k.previous = passed.getLast?

/-- The start of a text. -/
def ofText (cs : List Char) : Cursor := ⟨0, none, cs⟩

/-- The cursor after `passed`, when `rest` follows it. -/
def past (k : Cursor) (passed rest : List Char) : Cursor where
  offset := k.offset + byteSize passed
  previous := passed.getLast?.or k.previous
  rest := rest

/-- Passes the characters in front that satisfy `p`. -/
def skipWhile (p : Char → Bool) (k : Cursor) : Cursor :=
  k.past (k.rest.takeWhile p) (k.rest.dropWhile p)

/-- Passes at least one character that satisfies `p`, and all those that follow it. -/
def skipSome? (p : Char → Bool) (k : Cursor) : Option Cursor :=
  match k.rest with
  | c :: _ => if p c then some (k.skipWhile p) else none
  | [] => none

/-- Passes the given text. -/
def token? (text : String) (k : Cursor) : Option Cursor :=
  if text.toList.isPrefixOf k.rest then
    some (k.past text.toList (k.rest.drop text.toList.length))
  else none

/-- The text between a cursor and a later one. -/
def upTo (k later : Cursor) : List Char := takeBytes (later.offset - k.offset) k.rest

/-! ## Standing in a text -/

namespace At

theorem ofText (text : List Char) : At text (Cursor.ofText text) :=
  ⟨[], by simp [Cursor.ofText], by simp [Cursor.ofText, byteSize], by simp [Cursor.ofText]⟩

/-- Passing what comes next stays in the text. -/
theorem past {text : List Char} {k : Cursor} (h : At text k) {passed rest : List Char}
    (hr : k.rest = passed ++ rest) : At text (k.past passed rest) := by
  obtain ⟨front, htext, hoffset, hprevious⟩ := h
  refine ⟨front ++ passed, ?_, ?_, ?_⟩
  · rw [htext, hr]
    simp [Cursor.past]
  · simp [Cursor.past, hoffset, byteSize_append]
  · simp [Cursor.past, hprevious, List.getLast?_append]

theorem skipWhile {text : List Char} {k : Cursor} (h : At text k) (p : Char → Bool) :
    At text (k.skipWhile p) :=
  h.past List.takeWhile_append_dropWhile.symm

theorem skipSome? {text : List Char} {k k' : Cursor} (h : At text k) {p : Char → Bool}
    (hk : k.skipSome? p = some k') : At text k' := by
  unfold Cursor.skipSome? at hk
  split at hk
  · split at hk
    · rw [← Option.some.inj hk]
      exact h.skipWhile p
    · cases hk
  · cases hk

theorem token? {text : List Char} {k k' : Cursor} (h : At text k) {word : String}
    (hk : k.token? word = some k') : At text k' := by
  unfold Cursor.token? at hk
  split at hk
  · rename_i hw
    rw [← Option.some.inj hk]
    obtain ⟨rest, hrest⟩ := List.isPrefixOf_iff_prefix.1 hw
    apply h.past
    rw [← hrest, List.drop_left]
  · cases hk

end At

/-! ## Where words and lines start -/

/-- Nothing was passed yet, or a line feed was passed last. -/
def atLineStart (k : Cursor) : Bool :=
  match k.previous with
  | none => true
  | some c => c == '\n'

/-- No character of a word was passed last. -/
def atWordStart (k : Cursor) : Bool :=
  match k.previous with
  | none => true
  | some c => !isWord c

/-- `atOffset?` on the fields of a cursor. -/
def atOffsetFrom? (target : Nat) : Nat → Option Char → List Char → Option Cursor
  | offset, previous, [] => if offset = target then some ⟨offset, previous, []⟩ else none
  | offset, previous, c :: cs =>
    if offset = target then some ⟨offset, previous, c :: cs⟩
    else atOffsetFrom? target (offset + c.utf8Size) (some c) cs

/-- The cursor at a byte offset of the text; there is none past the end or inside a character. -/
def atOffset? (text : List Char) (target : Nat) : Option Cursor :=
  atOffsetFrom? target 0 none text

/-! ## Searching -/

/-- `find?` on the fields of a cursor. -/
def findFrom? {α : Type} (attempt : Cursor → Option α) :
    Nat → Option Char → List Char → Option α
  | offset, previous, [] => attempt ⟨offset, previous, []⟩
  | offset, previous, c :: cs =>
    match attempt ⟨offset, previous, c :: cs⟩ with
    | some a => some a
    | none => findFrom? attempt (offset + c.utf8Size) (some c) cs

/-- The result at the leftmost position, from the cursor on, at which `attempt` succeeds. -/
def find? {α : Type} (attempt : Cursor → Option α) (k : Cursor) : Option α :=
  findFrom? attempt k.offset k.previous k.rest

/-- `scan` on the fields of a cursor. -/
def scanFrom {α : Type} (attempt : Cursor → Option (α × Nat)) :
    Nat → Nat → Option Char → List Char → List α
  | _, _, _, [] => []
  | resume, offset, previous, c :: cs =>
    if offset < resume then scanFrom attempt resume (offset + c.utf8Size) (some c) cs
    else
      match attempt ⟨offset, previous, c :: cs⟩ with
      | some (a, next) => a :: scanFrom attempt next (offset + c.utf8Size) (some c) cs
      | none => scanFrom attempt resume (offset + c.utf8Size) (some c) cs

/-- The results of `attempt` from left to right, over the positions with an offset of at least
`resume`. A success also says at which offset the search resumes; at least one character is passed
between two successes. -/
def scan {α : Type} (attempt : Cursor → Option (α × Nat)) (resume : Nat) (k : Cursor) : List α :=
  scanFrom attempt resume k.offset k.previous k.rest

/-- `cut` on the fields of a cursor. -/
def cutFrom (attempt : Cursor → Option Cursor) :
    Nat → Nat → Option Char → List Char → List Char
  | _, _, _, [] => []
  | resume, offset, previous, c :: cs =>
    if offset < resume then cutFrom attempt resume (offset + c.utf8Size) (some c) cs
    else
      match attempt ⟨offset, previous, c :: cs⟩ with
      | some stop => cutFrom attempt stop.offset (offset + c.utf8Size) (some c) cs
      | none => c :: cutFrom attempt resume (offset + c.utf8Size) (some c) cs

/-- The text without the parts that `attempt` passes, found from left to right. -/
def cut (attempt : Cursor → Option Cursor) (text : List Char) : List Char :=
  cutFrom attempt 0 0 none text

/-! ## Repetition -/

/-- `iterates` with at most `n` steps. -/
def iteratesUpTo (step : Cursor → Option Cursor) : Nat → Cursor → List Cursor
  | 0, k => [k]
  | n + 1, k =>
    match step k with
    | some next => k :: iteratesUpTo step n next
    | none => [k]

/-- The positions reached by repeating `step`, nearest first. A step passes at least one character,
so the unread text bounds their number. -/
def iterates (step : Cursor → Option Cursor) (k : Cursor) : List Cursor :=
  iteratesUpTo step k.rest.length k

/-- The position at which `step` no longer applies. -/
def repeatedly (step : Cursor → Option Cursor) (k : Cursor) : Cursor :=
  (iterates step k).getLast?.getD k

/-- Repeats `step` as often as possible, and then less often, until `continue?` succeeds. -/
def longest? {α : Type} (step : Cursor → Option Cursor) (continue? : Cursor → Option α)
    (k : Cursor) : Option α :=
  (iterates step k).reverse.findSome? continue?

end Cursor

end ClassDiagram.Text
