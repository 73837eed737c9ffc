import ClassDiagram.Diagram

/-!
# PlantUML documents

A document is a list of lines: the start marker, a block for each enumeration, a block for each
other classifier, an empty line, one line for each edge, and the end marker. Every line ends with a
line feed. A field that holds a container is shown as its element with `[*]` behind it, and a member
of an interface without an access keyword is visible to everyone.
-/

namespace ClassDiagram

namespace Document

/-- The type of a field as a diagram shows it. -/
def typeText (settings : Settings) (a : Attribute) : String :=
  match a.type? with
  | none => a.declaredType
  | some t =>
    if Inference.isContainer settings t then
      match t.element? with
      | some element => element.render ++ " [*]"
      | none => a.declaredType
    else t.render

/-- The line of a field. -/
def attributeLine (settings : Settings) (a : Attribute) : String :=
  a.visibility.symbol.toString ++ a.name ++ ": " ++ typeText settings a

/-- The visibility of a method as a diagram shows it. -/
def shownVisibility (owner : ClassifierKind) (v : Visibility) : Visibility :=
  if owner = .interfaceType ∧ v = .package then .everyone else v

/-- The line of a method. -/
def methodLine (owner : ClassifierKind) (m : Method) : String :=
  let parameters := m.parameters.map fun p => p.type ++ " " ++ p.name
  (shownVisibility owner m.visibility).symbol.toString ++ m.name ++ "(" ++
    String.intercalate ", " parameters ++ ")"

/-- The lines of a classifier's members. -/
def memberLines (settings : Settings) (c : Classifier) : List String :=
  match c.kind with
  | .enumType => c.constants
  | kind => c.attributes.map (attributeLine settings) ++ c.methods.map (methodLine kind)

/-- The lines of a classifier's block. -/
def blockLines (settings : Settings) (c : Classifier) : List String :=
  (c.kind.keyword ++ " " ++ c.name ++ " \x7b") ::
    ((memberLines settings c).map ("    " ++ ·) ++ ["\x7d"])

/-- The classifiers in the order of their blocks: enumerations first. -/
def blockOrder (classifiers : List Classifier) : List Classifier :=
  classifiers.filter (fun c => c.kind == .enumType) ++
    classifiers.filter (fun c => c.kind != .enumType)

/-- The lines of a diagram. -/
def lines (settings : Settings) (d : Diagram) : List String :=
  ["@startuml"] ++
    (blockOrder d.registry.classifiers.values).flatMap (blockLines settings) ++
    [""] ++ d.relations.lines ++ ["@enduml"]

/-- The text of lines, each ended by a line feed. -/
def unlines (lines : List String) : String := String.join (lines.map (· ++ "\n"))

end Document

/-- The document of a diagram. -/
def Diagram.render (settings : Settings) (d : Diagram) : String :=
  Document.unlines (Document.lines settings d)

end ClassDiagram
