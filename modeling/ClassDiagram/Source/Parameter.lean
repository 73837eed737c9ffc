import ClassDiagram.Classifier.Basic
import ClassDiagram.Text.Pieces

/-!
# Parameter lists

Commas outside brackets separate the parameters. Of the words of a parameter, annotations and
`final` are dropped; the last one is the name and the ones before it are the type. Array brackets
behind the name belong to the type.
-/

namespace ClassDiagram.Source

open Text

/-- Writes a type text without blanks, but with one space behind each comma. -/
def withoutBlanks : List Char → List Char
  | [] => []
  | c :: cs =>
    if isBlank c then withoutBlanks cs
    else if c == ',' then ',' :: ' ' :: withoutBlanks cs
    else c :: withoutBlanks cs

/-- Cuts a text off the end of another. -/
def dropTrailing? (ending cs : List Char) : Option (List Char) :=
  if ending.isSuffixOf cs then some (cs.take (cs.length - ending.length)) else none

/-- The written form of a type text: no blanks but one space behind each comma, and a variable
number of arguments as an array. -/
def normalizeType (cs : List Char) : List Char :=
  let cs := withoutBlanks cs
  match dropTrailing? ['.', '.', '.'] cs with
  | some base => base ++ ['[', ']']
  | none => cs

/-- Moves the array brackets behind a name, given in reverse, to the end of the type. -/
def moveBrackets : List Char → List Char → List Char × List Char
  | type, ']' :: '[' :: name => moveBrackets (type ++ ['[', ']']) name
  | type, name => (type, name.reverse)

/-- Reads one parameter. -/
def parameter? (piece : List Char) : Option Parameter :=
  let tokens := (words piece).filter fun word =>
    word.head? != some '@' && String.ofList word != "final"
  match tokens.reverse with
  | [] => none
  | [only] => some ⟨"", String.ofList (normalizeType only)⟩
  | name :: type =>
    let (type, name) := moveBrackets (normalizeType type.reverse.flatten) name.reverse
    some ⟨String.ofList name, String.ofList type⟩

/-- Reads a parameter list. -/
def parameters (cs : List Char) : List Parameter := (pieces ',' cs).filterMap parameter?

end ClassDiagram.Source
