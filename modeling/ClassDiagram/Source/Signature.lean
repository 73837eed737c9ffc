import ClassDiagram.Source.Member

/-!
# Signatures

A signature is an optional return type, a name, a parameter list without parentheses inside, an
optional `throws` clause, and the brace or semicolon that ends it. The next signature may begin at
that brace or semicolon. Without a return type only the name of the classifier is accepted, for it
declares a constructor.
-/

namespace ClassDiagram.Source

open Text

/-- A signature found in a text. -/
structure Signature where
  /-- The name. -/
  name : String
  /-- The modifiers as written. -/
  modifiers : List Char
  /-- The return type as written. -/
  returnType? : Option String
  /-- The parameter list as written. -/
  parameters : List Char
  /-- The position of the first modifier. -/
  start : Cursor
  /-- The position of the opening brace, if there is a body. -/
  body? : Option Cursor
  deriving Repr, DecidableEq

namespace Signature

/-- The modifiers of a method. -/
def modifierWords : List String :=
  ["public", "protected", "private", "static", "final", "abstract", "synchronized", "native",
   "default", "strictfp"]

/-- A character of the names and commas in a `throws` clause. -/
def isThrowsChar (c : Char) : Bool := isPathChar c || c == ',' || isBlank c

/-- Passes a `throws` clause: a blank must come first, and something after it. -/
def throwsClause? (k : Cursor) : Option Cursor := do
  let k ← k.token? "throws"
  match k.rest.takeWhile isThrowsChar with
  | first :: _ :: _ => if isBlank first then some (k.skipWhile isThrowsChar) else none
  | _ => none

/-- What follows the modifiers of a signature. -/
structure Tail where
  /-- The return type as written. -/
  returnType? : Option (List Char)
  /-- The name. -/
  name : List Char
  /-- The parameter list as written. -/
  parameters : List Char
  /-- The position of the brace or semicolon that ends the signature. -/
  stop : Cursor

/-- Reads a signature from its name on. -/
def named? (returnType? : Option (List Char)) (k : Cursor) : Option Tail := do
  let (name, k) ← name? k
  let k ← (k.skipWhile isBlank).token? "("
  let inner := k.skipWhile fun c => c != '(' && c != ')'
  let stop := (← inner.token? ")").skipWhile isBlank
  let stop := (throwsClause? stop).getD stop
  guard (stop.rest.head? == some '{' || stop.rest.head? == some ';')
  return ⟨returnType?, name, k.upTo inner, stop⟩

/-- Reads a signature from its return type on. -/
def typed? (k : Cursor) : Option Tail := do
  let stop ← Member.typeText? k
  named? (some (k.upTo stop)) (← stop.skipSome? isBlank)

/-- Reads a signature at the cursor, and the offset at which it ends. -/
def at? (k : Cursor) : Option (Signature × Nat) :=
  (Member.at? modifierWords (fun k => (typed? k).or (named? none k)) k).map
    fun ⟨start, stop, tail⟩ =>
      let body? := if tail.stop.rest.head? == some '{' then some tail.stop else none
      (⟨String.ofList tail.name, trim (start.upTo stop), tail.returnType?.map String.ofList,
        tail.parameters, start, body?⟩, tail.stop.offset)

/-- Whether the words of a signature admit it as a member of the classifier `owner`. -/
def isMember (owner : String) (s : Signature) : Bool :=
  !isReserved s.name &&
    match s.returnType? with
    | some type => !isReserved type
    | none => s.name == owner

/-- The signatures of the members of `owner` that begin at the offset `from` or later. -/
def findAll (text : List Char) (least : Nat) (owner : String) : List Signature :=
  ((Cursor.ofText text).scan at? least).filter (isMember owner)

/-- Who may use the method. -/
def visibility (s : Signature) : Visibility := Visibility.ofModifiers s.modifiers

end Signature

end ClassDiagram.Source
