import ClassDiagram.Text.Cursor

/-!
# Noise

Comments and the package clause say nothing about a declaration and are removed in three sweeps:
block comments become one space, line comments vanish up to their line feed, and package clauses
vanish together with the blank lines above them. The sweeps know nothing of string literals.
-/

namespace ClassDiagram.Source

open Text

/-- Whether the end of a block comment stands in the text. -/
def closesComment : List Char → Bool
  | [] => false
  | '*' :: '/' :: _ => true
  | _ :: cs => closesComment cs

/-- Replaces block comments by spaces; `inside` says whether the text starts within one. A comment
that is not closed stays, and then nothing behind it is a comment either. -/
def replaceBlockComments : (inside : Bool) → List Char → List Char
  | _, [] => []
  | true, '*' :: '/' :: cs => replaceBlockComments false cs
  | true, _ :: cs => replaceBlockComments true cs
  | false, '/' :: '*' :: cs =>
    if closesComment cs then ' ' :: replaceBlockComments true cs else '/' :: '*' :: cs
  | false, c :: cs => c :: replaceBlockComments false cs

/-- Drops line comments; `inside` says whether the text starts within one. -/
def dropLineComments : (inside : Bool) → List Char → List Char
  | _, [] => []
  | _, '\n' :: cs => '\n' :: dropLineComments false cs
  | true, _ :: cs => dropLineComments true cs
  | false, '/' :: '/' :: cs => dropLineComments true cs
  | false, c :: cs => c :: dropLineComments false cs

/-- Passes a package clause and the blanks in front of it, at the start of a line. -/
def packageClause? (k : Cursor) : Option Cursor := do
  guard k.atLineStart
  let k ← (k.skipWhile isBlank).token? "package"
  let k ← k.skipSome? isBlank
  let k ← k.skipSome? fun c => !isBlank c && c != ';'
  (k.skipWhile isBlank).token? ";"

/-- The text without comments and package clauses. -/
def stripNoise (cs : List Char) : List Char :=
  Cursor.cut packageClause? (dropLineComments false (replaceBlockComments false cs))

end ClassDiagram.Source
