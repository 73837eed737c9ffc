import ClassDiagram.Source.Member

/-!
# Instantiations

An assignment whose right side starts with `new`, a type name, optional type arguments and an
opening parenthesis. What is assigned to is only checked to end in a name, a dot or a bracket.
-/

namespace ClassDiagram.Source

open Text

namespace Instantiation

/-- A character at the end of what is assigned to. -/
def isTargetChar (c : Char) : Bool := isPathChar c || c == ']'

/-- Passes type arguments that reach to an opening parenthesis. -/
def typeArguments? (k : Cursor) : Option Cursor := do
  let k ← k.token? "<"
  let inner := k.rest.takeWhile fun c => c != ';' && c != '(' && c != ')'
  match Member.throughLast '>' inner with
  | [] => none
  | arguments => some (k.past arguments (k.rest.drop arguments.length))

/-- Reads an instantiation at the cursor: the type, and the offset behind the parenthesis. -/
def at? (k : Cursor) : Option (List Char × Nat) := do
  let k ← k.skipSome? isTargetChar
  let k ← (k.skipWhile isBlank).token? "="
  let k ← (k.skipWhile isBlank).token? "new"
  let (type, k) ← name? (← k.skipSome? isBlank)
  let k := k.skipWhile isBlank
  let k := (typeArguments? k).getD k
  let k ← (k.skipWhile isBlank).token? "("
  return (type, k.offset)

/-- The instantiated types in a text, in order. -/
def findAll (text : List Char) : List String :=
  ((Cursor.ofText text).scan at? 0).map String.ofList

end Instantiation

end ClassDiagram.Source
