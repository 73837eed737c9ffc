/-!
# Type expressions

A declared type such as `java.util.Map<String, Order[]>`: a possibly qualified name, its type
arguments and the number of array brackets behind it. An unbounded wildcard is the name `?`
standing alone, and a bounded wildcard is represented by its bound.
-/

namespace ClassDiagram

/-- A type as it is written in a declaration. -/
structure TypeExpr where
  /-- The possibly qualified name. -/
  name : String
  /-- The type arguments, in order. -/
  arguments : List TypeExpr
  /-- The number of array brackets. -/
  dimensions : Nat
  deriving Repr, BEq

namespace TypeExpr

/-- The type with the given name, without arguments and brackets. -/
def ofName (name : String) : TypeExpr := ⟨name, [], 0⟩

/-- The unbounded wildcard. -/
def wildcard : TypeExpr := ofName "?"

/-- The last segment of a dotted name. -/
def lastSegment (name : String) : String :=
  String.ofList (name.toList.reverse.takeWhile (· != '.')).reverse

/-- The name without its qualifier. -/
def simpleName (t : TypeExpr) : String := lastSegment t.name

/-- Whether brackets follow the type. -/
def isArray (t : TypeExpr) : Bool := 0 < t.dimensions

/-- Whether the type has arguments. -/
def isParameterized (t : TypeExpr) : Bool := !t.arguments.isEmpty

/-- Whether the type is named like the unbounded wildcard. -/
def isWildcard (t : TypeExpr) : Bool := t.name == "?"

/-- The first type argument: what a list-like container holds. -/
def element? (t : TypeExpr) : Option TypeExpr := t.arguments.head?

/-! ## Written form -/

/-- Writes the array brackets. -/
def renderDimensions : Nat → String
  | 0 => ""
  | n + 1 => "[]" ++ renderDimensions n

mutual

/-- Writes a type: a comma and one space separate the arguments, and there is no other space. -/
def render : TypeExpr → String
  | ⟨name, [], dimensions⟩ => name ++ renderDimensions dimensions
  | ⟨name, first :: rest, dimensions⟩ =>
    name ++ "<" ++ render first ++ renderRest rest ++ ">" ++ renderDimensions dimensions

/-- Writes the arguments after the first one, each behind its comma. -/
def renderRest : List TypeExpr → String
  | [] => ""
  | t :: rest => ", " ++ render t ++ renderRest rest

end

end TypeExpr

end ClassDiagram
