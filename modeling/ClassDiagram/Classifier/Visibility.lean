import ClassDiagram.Text.Blank

/-!
# Visibility of members

A member without an access keyword is visible inside its package.
-/

namespace ClassDiagram

/-- Who may use a member. -/
inductive Visibility where
  | everyone
  | owner
  | subclasses
  | package
  deriving Repr, DecidableEq

namespace Visibility

/-- The access keyword's visibility. -/
def ofKeyword? : String → Option Visibility
  | "public" => some everyone
  | "private" => some owner
  | "protected" => some subclasses
  | _ => none

/-- The visibility of a member with the given modifiers: the first access keyword decides. -/
def ofModifiers (modifiers : List Char) : Visibility :=
  ((Text.words modifiers).findSome? fun word => ofKeyword? (String.ofList word)).getD package

/-- The mark in front of a member in a diagram. -/
def symbol : Visibility → Char
  | everyone => '+'
  | owner => '-'
  | subclasses => '#'
  | package => '~'

/-- The name of the visibility. -/
def label : Visibility → String
  | everyone => "public"
  | owner => "private"
  | subclasses => "protected"
  | package => "package"

end Visibility

end ClassDiagram
