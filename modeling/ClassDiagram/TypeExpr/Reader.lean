import ClassDiagram.Text.CharClass
import ClassDiagram.TypeExpr.Basic

/-!
# Reading type expressions

The written form is

* a type: a name, then optional arguments, then array brackets, with gaps before the last two;
* arguments: nothing, or arguments separated by commas, between angle brackets;
* an argument, with gaps around it: a type, a wildcard `?`, or a wildcard with a bound, which is
  the word `extends` or `super` and a type.

Gaps are runs of spaces, tabs, line feeds and carriage returns. An optional part that cannot be read
to its end is left unread. `TypeExpr.read?` reads a whole text.
-/

namespace ClassDiagram.TypeExpr

open Text (isTypeNameChar continuesIdentifier)

/-- A character of a gap. -/
def isGap (c : Char) : Bool := c == ' ' || c == '\t' || c == '\n' || c == '\r'

/-- The text without the gap in front. -/
def skipGap (cs : List Char) : List Char := cs.dropWhile isGap

/-- Reads a name: at least one name character. -/
def readName? (cs : List Char) : Option (String × List Char) :=
  match cs.takeWhile isTypeNameChar with
  | [] => none
  | name => some (String.ofList name, cs.dropWhile isTypeNameChar)

/-- Reads a word that no identifier character continues. -/
def readWord? (word : String) (cs : List Char) : Option (List Char) :=
  if word.toList.isPrefixOf cs then
    let rest := cs.drop word.toList.length
    if rest.head?.any continuesIdentifier then none else some rest
  else none

/-- Reads what introduces the bound of a wildcard, with the gaps around it. -/
def readBoundWord? (cs : List Char) : Option (List Char) :=
  let cs := skipGap cs
  ((readWord? "extends" cs).or (readWord? "super" cs)).map skipGap

/-- Reads array brackets, each behind a gap, at most `n` of them. -/
def readDimensions : Nat → List Char → Nat × List Char
  | 0, cs => (0, cs)
  | n + 1, cs =>
    match skipGap cs with
    | '[' :: ']' :: rest =>
      let (dimensions, rest) := readDimensions n rest
      (dimensions + 1, rest)
    | _ => (0, cs)

/-- Reads an argument and the gaps around it; `readType?` reads a type inside it. -/
def readArgument? (readType? : List Char → Option (TypeExpr × List Char)) (cs : List Char) :
    Option (TypeExpr × List Char) :=
  match skipGap cs with
  | '?' :: rest =>
    match (readBoundWord? rest).bind readType? with
    | some (bound, rest) => some (bound, skipGap rest)
    | none => some (wildcard, skipGap rest)
  | cs => (readType? cs).map fun (t, rest) => (t, skipGap rest)

mutual

/-- Reads a type, following at most `n` nested or neighbouring arguments. -/
def readType? : Nat → List Char → Option (TypeExpr × List Char)
  | 0, _ => none
  | n + 1, cs => do
    let (name, rest) ← readName? cs
    let arguments? :=
      match skipGap rest with
      | '<' :: '>' :: rest => some ([], rest)
      | '<' :: rest => readArguments? n rest
      | _ => none
    let (arguments, rest) := arguments?.getD ([], rest)
    let (dimensions, rest) := readDimensions rest.length rest
    return (⟨name, arguments, dimensions⟩, rest)

/-- Reads one argument or more and the closing angle bracket. -/
def readArguments? : Nat → List Char → Option (List TypeExpr × List Char)
  | 0, _ => none
  | n + 1, cs => do
    let (first, rest) ← readArgument? (readType? n) cs
    match rest with
    | '>' :: rest => return ([first], rest)
    | ',' :: rest =>
      let (others, rest) ← readArguments? n rest
      return (first :: others, rest)
    | _ => none

end

/-- Reads a whole text as a type, with gaps around it. Each nested or neighbouring argument costs a
character, so the length of the text bounds their number. -/
def read? (text : String) : Option TypeExpr :=
  let cs := skipGap text.toList
  match readType? (cs.length + 1) cs with
  | some (t, rest) => if (skipGap rest).isEmpty then some t else none
  | none => none

end ClassDiagram.TypeExpr
