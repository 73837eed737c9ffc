import ClassDiagram.Text.Cursor

/-!
# Blocks

The text between an opening brace and the brace that closes it. Braces in string and character
literals do not count; in a literal a backslash takes the next character's meaning away. A block
that is never closed reaches to the end of the text.
-/

namespace ClassDiagram.Source

open Text

/-- The text up to the brace that closes the block, at the given depth and, when `quote?` is a
quote, inside a literal that this quote closes. -/
def blockFrom : (depth : Nat) → (quote? : Option Char) → List Char → List Char
  | _, _, [] => []
  | depth, some quote, '\\' :: c :: cs => '\\' :: c :: blockFrom depth (some quote) cs
  | depth, some quote, c :: cs => c :: blockFrom depth (if c == quote then none else some quote) cs
  | depth, none, c :: cs =>
    if c == '{' then c :: blockFrom (depth + 1) none cs
    else if c == '}' then if depth ≤ 1 then [] else c :: blockFrom (depth - 1) none cs
    else if c == '"' || c == '\'' then c :: blockFrom depth (some c) cs
    else c :: blockFrom depth none cs

/-- The contents of the block that opens at the cursor. -/
def block? (k : Cursor) : Option (List Char) :=
  match k.rest with
  | '{' :: cs => some (blockFrom 1 none cs)
  | _ => none

end ClassDiagram.Source
