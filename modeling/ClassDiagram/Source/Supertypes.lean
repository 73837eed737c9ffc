import ClassDiagram.Text.Blank
import ClassDiagram.Text.Cursor
import ClassDiagram.Text.Pieces

/-!
# Supertypes named in a header

The parent is the name after the first `extends`; the interfaces are the names after the first
`implements`, without their type arguments.
-/

namespace ClassDiagram.Source

open Text

/-- The supertypes of a declaration. -/
structure Supertypes where
  /-- The parent. -/
  parent? : Option String
  /-- The implemented interfaces, in order. -/
  interfaces : List String
  deriving Repr, DecidableEq

namespace Supertypes

/-- Reads `extends` and the name behind it. -/
def parentAt? (k : Cursor) : Option (List Char) := do
  guard k.atWordStart
  let k ← (← k.token? "extends").skipSome? isBlank
  guard (k.rest.head?.any isPathChar)
  return k.rest.takeWhile isPathChar

/-- Reads `implements` and the text up to the next brace. The text behind the blanks is taken if
there is any; otherwise the last of several blanks is taken for it. -/
def listAt? (k : Cursor) : Option (List Char) := do
  guard k.atWordStart
  let k ← k.token? "implements"
  let after ← k.skipSome? isBlank
  match after.rest.takeWhile (· != '{') with
  | [] =>
    let blanks := k.upTo after
    if 1 < blanks.length then blanks.getLast?.map ([·]) else none
  | list => some list

/-- The interface named by a piece of the list. -/
def interface? (piece : List Char) : Option String :=
  match trim (piece.takeWhile (· != '<')) with
  | [] => none
  | name => some (String.ofList name)

/-- The supertypes named in a header. -/
def ofHeader (header : List Char) : Supertypes where
  parent? := ((Cursor.ofText header).find? parentAt?).map String.ofList
  interfaces :=
    match (Cursor.ofText header).find? listAt? with
    | none => []
    | some list => (pieces ',' list).filterMap interface?

end Supertypes

end ClassDiagram.Source
