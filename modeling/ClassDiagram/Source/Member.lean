import ClassDiagram.Source.Declaration

/-!
# Members

Fields and methods begin alike: at the start of a line or behind a brace or semicolon, with
annotations and modifiers. Modifiers are read as long as possible; when the rest of the member
cannot be read then, the last ones are read as its type or name. A type text is a possibly qualified
name with optional type arguments and array brackets; its arguments reach to the last closing angle
bracket before any character that no type holds.
-/

namespace ClassDiagram.Source

open Text

/-- Words that name no member and no type. -/
def reservedWords : List String :=
  ["if", "else", "for", "while", "do", "switch", "case", "catch", "try", "finally", "return",
   "new", "throw", "super", "this", "synchronized", "import", "package", "break", "continue",
   "assert", "goto", "class", "enum", "interface", "default", "instanceof"]

/-- Whether a word names no member and no type. -/
def isReserved (word : String) : Bool := reservedWords.contains word

namespace Member

/-- The positions at which a member may begin at the cursor: right there when a line starts, and
behind a brace or semicolon. -/
def starts (k : Cursor) : List Cursor :=
  let behind :=
    match k.rest with
    | c :: cs => if c == '{' || c == '}' || c == ';' then [k.past [c] cs] else []
    | [] => []
  if k.atLineStart then k :: behind else behind

/-- Passes the arguments of an annotation, which hold no closing parenthesis. -/
def annotationArguments? (k : Cursor) : Option Cursor := do
  let k ← k.token? "("
  (k.skipWhile (· != ')')).token? ")"

/-- Passes an annotation and the blanks behind it. -/
def annotation? (k : Cursor) : Option Cursor := do
  let k ← (← k.token? "@").skipSome? isPathChar
  ((annotationArguments? k).getD k).skipSome? isBlank

/-- Passes one of the given modifiers and the blanks behind it. -/
def modifier? (modifiers : List String) (k : Cursor) : Option Cursor :=
  modifiers.findSome? fun word => (k.token? word).bind (Cursor.skipSome? isBlank)

/-- What is read of a member: where its modifiers start and end, and the rest. -/
structure Reading (α : Type) where
  /-- The position of the first modifier. -/
  start : Cursor
  /-- The position behind the modifiers. -/
  stop : Cursor
  /-- What follows the modifiers. -/
  rest : α

/-- Reads a member that begins at the cursor; `rest?` reads what follows the modifiers. -/
def at? {α : Type} (modifiers : List String) (rest? : Cursor → Option α) (k : Cursor) :
    Option (Reading α) :=
  (starts k).findSome? fun start =>
    let start := (start.skipWhile isBlank).repeatedly annotation?
    start.longest? (modifier? modifiers) fun stop => (rest? stop).map (Reading.mk start stop)

/-- A character inside type arguments. -/
def isArgumentChar (c : Char) : Bool :=
  isPathChar c || c == ',' || c == '?' || c == '<' || c == '>' || c == ' ' || c == '\t' ||
    c == '[' || c == ']'

/-- The longest leading part that ends with the character `last`. -/
def throughLast (last : Char) (cs : List Char) : List Char :=
  (cs.reverse.dropWhile (· != last)).reverse

/-- Passes type arguments and the blanks in front of them. -/
def typeArguments? (k : Cursor) : Option Cursor := do
  let k ← (k.skipWhile isBlank).token? "<"
  match throughLast '>' (k.rest.takeWhile isArgumentChar) with
  | [] => none
  | inner => some (k.past inner (k.rest.drop inner.length))

/-- Passes a pair of array brackets and the blanks in front of it. -/
def brackets? (k : Cursor) : Option Cursor := (k.skipWhile isBlank).token? "[]"

/-- Passes a type text. -/
def typeText? (k : Cursor) : Option Cursor := do
  let k ← k.skipSome? isPathChar
  return ((typeArguments? k).getD k).repeatedly brackets?

end Member

end ClassDiagram.Source
