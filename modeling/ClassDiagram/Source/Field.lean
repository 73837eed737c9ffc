import ClassDiagram.Source.Member
import ClassDiagram.Source.Parameter

/-!
# Fields

A field is a type text, a name, an optional initial value and a semicolon. The next field may begin
at that semicolon.
-/

namespace ClassDiagram.Source

open Text

/-- A field found in a text. -/
structure Field where
  /-- The name of the field. -/
  name : String
  /-- The written type. -/
  type : String
  /-- Who may use the field. -/
  visibility : Visibility
  deriving Repr, DecidableEq

namespace Field

/-- The modifiers of a field. -/
def modifiers : List String :=
  ["public", "protected", "private", "static", "final", "transient", "volatile"]

/-- Passes an initial value, up to the next semicolon. -/
def initialValue? (k : Cursor) : Option Cursor := (k.token? "=").map (·.skipWhile (· != ';'))

/-- Reads type, name and initial value of a field, up to its semicolon. -/
def rest? (k : Cursor) : Option (List Char × List Char × Cursor) := do
  let stop ← Member.typeText? k
  let (name, k') ← name? (← stop.skipSome? isBlank)
  let k' := k'.skipWhile isBlank
  let k' := (initialValue? k').getD k'
  guard (k'.rest.head? == some ';')
  return (k.upTo stop, name, k')

/-- Reads a field at the cursor, and the offset of its semicolon. -/
def at? (k : Cursor) : Option ((List Char × List Char × List Char) × Nat) :=
  (Member.at? modifiers rest? k).map fun ⟨start, stop, type, name, semicolon⟩ =>
    ((start.upTo stop, type, name), semicolon.offset)

/-- The fields in a text, in order. -/
def findAll (text : List Char) : List Field :=
  ((Cursor.ofText text).scan at? 0).filterMap fun (modifiers, type, name) =>
    let name := String.ofList name
    if isReserved (String.ofList type) || isReserved name then none
    else some ⟨name, String.ofList (normalizeType type), Visibility.ofModifiers modifiers⟩

end Field

end ClassDiagram.Source
