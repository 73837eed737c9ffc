import ClassDiagram.Diagram
import ClassDiagram.Json

/-!
# Reports

What was extracted and inferred, in plain lines for a reader or as JSON for a program.
-/

namespace ClassDiagram

namespace Report

/-! ## JSON form of the parts -/

/-- Strings as an array. -/
def strings (xs : List String) : Json := .array (xs.map .string)

/-- A string or nothing. -/
def string? : Option String → Json
  | none => .null
  | some s => .string s

mutual

/-- The JSON form of a type. -/
def typeExprJson : TypeExpr → Json
  | ⟨name, arguments, dimensions⟩ =>
    .object [("name", .string name), ("args", .array (typeExprsJson arguments)),
      ("array_dims", .number dimensions)]

/-- The JSON forms of types. -/
def typeExprsJson : List TypeExpr → List Json
  | [] => []
  | t :: rest => typeExprJson t :: typeExprsJson rest

end

/-- The JSON form of a field. -/
def attributeJson (a : Attribute) : Json :=
  let type :=
    match a.type? with
    | none => .null
    | some t => typeExprJson t
  .object [("name", .string a.name), ("declared_type", .string a.declaredType),
    ("type_ref", type), ("visibility", .string a.visibility.label)]

/-- The JSON form of a parameter. -/
def parameterJson (p : Parameter) : Json :=
  .object [("name", .string p.name), ("param_type", .string p.type)]

/-- The JSON form of a method. -/
def methodJson (m : Method) : Json :=
  .object [("name", .string m.name), ("visibility", .string m.visibility.label),
    ("parameters", .array (m.parameters.map parameterJson)), ("kind", .string m.role.label)]

/-- The JSON form of a classifier. -/
def classifierJson (c : Classifier) : Json :=
  .object [("name", .string c.name), ("kind", .string c.kind.keyword),
    ("attributes", .array (c.attributes.map attributeJson)),
    ("methods", .array (c.methods.map methodJson)), ("extends", string? c.parent?),
    ("implements", strings c.interfaces), ("type_parameters", strings c.typeParameters),
    ("enum_constants", strings c.constants)]

/-- The JSON form of construction evidence. -/
def constructionJson (e : Construction) : Json :=
  .object [("owner", .string e.owner), ("constructed", .string e.constructed)]

/-- The JSON form of a hierarchy edge. -/
def hierarchyEdgeJson (e : HierarchyEdge) : Json :=
  .object [("child", .string e.child), ("parent", .string e.parent),
    ("kind", .string e.kind.label)]

/-- The JSON form of the kind of a relation; a dependency has no direction to tell of. -/
def relationKindJson (k : RelationKind) : Json :=
  let direction :=
    match k with
    | .dependency => []
    | _ => [("bidirectional", .bool k.isTwoWay)]
  .object (("type", .string k.label) :: direction)

/-- The field of a multiplicity, if there is one. -/
def multiplicity (key : String) : Option String → List (String × Json)
  | none => []
  | some label => [(key, .string label)]

/-- The JSON form of a relation. -/
def relationJson (r : Relation) : Json :=
  .object ([("source", .string r.source), ("target", .string r.target),
    ("kind", relationKindJson r.kind)] ++ multiplicity "source_multiplicity" r.sourceLabel? ++
    multiplicity "target_multiplicity" r.targetLabel?)

/-- The JSON form of a diagram. -/
def diagramJson (d : Diagram) : Json :=
  .object [("classes", .array (d.registry.classifiers.values.map classifierJson)),
    ("construction", .array (d.registry.evidence.map constructionJson)),
    ("hierarchy", .array (d.relations.hierarchy.map hierarchyEdgeJson)),
    ("relations", .array (d.relations.relations.map relationJson)),
    ("lines", strings d.relations.lines)]

/-! ## Plain lines -/

/-- The line of a classifier. -/
def classifierLine (c : Classifier) : String :=
  "  " ++ c.kind.keyword ++ " " ++ c.name ++ " (" ++ toString c.attributes.length ++
    " attributes, " ++ toString c.methods.length ++ " methods)"

/-- The line of an owner and what it constructs. -/
def ownerLine (entry : String × List String) : String :=
  "  " ++ entry.1 ++ " -> " ++ String.intercalate ", " entry.2

/-- The lines of a diagram. -/
def lines (d : Diagram) : List String :=
  ["Classes: " ++ toString d.registry.classifierCount] ++
    d.registry.classifiers.values.map classifierLine ++
    ["Construction evidence: " ++ toString d.registry.evidenceCount] ++
    d.registry.construction.entries.map ownerLine ++
    ["Relations: " ++ toString d.relations.lines.length] ++
    d.relations.lines.map ("  " ++ ·)

end Report

/-- The report of a diagram, as JSON or in plain lines. -/
def Diagram.report (json : Bool) (d : Diagram) : String :=
  if json then (Report.diagramJson d).render
  else String.join ((Report.lines d).map (· ++ "\n"))

end ClassDiagram
