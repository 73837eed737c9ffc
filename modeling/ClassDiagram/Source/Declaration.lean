import ClassDiagram.Classifier.Basic
import ClassDiagram.Text.Blank
import ClassDiagram.Text.Cursor
import ClassDiagram.Text.Pieces

/-!
# The declaration of a source

A source is about one declaration: the first class or enumeration in it, and only when there is none
the first interface. The header is what stands between the declared name, with its list of type
parameters, and the opening brace.
-/

namespace ClassDiagram.Source

open Text

/-- Reads a declared name. -/
def name? (k : Cursor) : Option (List Char × Cursor) :=
  match k.rest with
  | c :: _ =>
    if isNameStart c then some (k.rest.takeWhile isNameChar, k.skipWhile isNameChar) else none
  | [] => none

/-- The place of a declaration in a text. -/
structure Declaration where
  /-- What is declared. -/
  kind : ClassifierKind
  /-- The declared name. -/
  name : String
  /-- The position of the declaring keyword. -/
  start : Cursor
  /-- The position just past the name. -/
  stop : Cursor
  deriving Repr, DecidableEq

namespace Declaration

/-- Reads a declaration of one of the given kinds at the cursor. -/
def at? (kinds : List ClassifierKind) (k : Cursor) : Option Declaration := do
  guard k.atWordStart
  kinds.findSome? fun kind => do
    let (name, stop) ← name? (← (← k.token? kind.keyword).skipSome? isBlank)
    return ⟨kind, String.ofList name, k, stop⟩

/-- The declaration that a text is about. -/
def find? (text : List Char) : Option Declaration :=
  ((Cursor.ofText text).find? (at? [.classType, .enumType])).or
    ((Cursor.ofText text).find? (at? [.interfaceType]))

/-- Splits a text inside angle brackets, at the given depth, where the outermost one closes. -/
def angleListFrom? : Nat → List Char → Option (List Char × List Char)
  | _, [] => none
  | depth, c :: cs =>
    if c == '>' && depth ≤ 1 then some ([], cs)
    else
      let depth := if c == '<' then depth + 1 else if c == '>' then depth - 1 else depth
      (angleListFrom? depth cs).map fun (inner, after) => (c :: inner, after)

/-- Splits a leading list in angle brackets off a text: its contents, and what comes after it. -/
def angleList? : List Char → Option (List Char × List Char)
  | '<' :: cs => angleListFrom? 1 cs
  | _ => none

/-- The text after the name, from its first character that is not blank. -/
def afterName (d : Declaration) : List Char := trimStart d.stop.rest

/-- The header: the text from the name and its type parameters to the opening brace. -/
def header (d : Declaration) : List Char :=
  let rest :=
    match angleList? d.afterName with
    | some (_, after) => after
    | none => d.afterName
  rest.takeWhile (· != '{')

/-- The names of the type parameters: the first word of each, where it is a name. -/
def typeParameters (d : Declaration) : List String :=
  match angleList? d.afterName with
  | none => []
  | some (list, _) =>
    let heads := (pieces ',' list).filterMap fun piece => (words piece).head?
    (heads.filter fun name => name.all isTypeParameterChar).map String.ofList

/-! ## Constants of an enumeration -/

/-- The part of a body that lists constants: up to the brace that closes the body, or to a semicolon
outside the arguments and bodies of the constants. -/
def constantArea : Nat → List Char → List Char
  | _, [] => []
  | depth, c :: cs =>
    if (c == '}' || c == ';') && depth == 0 then []
    else
      let depth :=
        if c == '(' || c == '{' then depth + 1
        else if c == ')' || c == '}' then depth - 1
        else depth
      c :: constantArea depth cs

/-- The name at the start of a text. -/
def leadingName? (cs : List Char) : Option String :=
  (name? (Cursor.ofText cs)).map fun (name, _) => String.ofList name

/-- The constants listed in the body of an enumeration. -/
def constants (d : Declaration) : List String :=
  match d.stop.rest.dropWhile (· != '{') with
  | [] => []
  | _ :: body => (pieces ',' (constantArea 0 body)).filterMap fun piece => leadingName? (trim piece)

end Declaration

end ClassDiagram.Source
