import ClassDiagram.Extraction
import ClassDiagram.Failure
import ClassDiagram.Inference

/-!
# Diagrams

A diagram is a registry with the relation set inferred from it. Classifiers and hierarchy edges can
be added to it by hand; relations come from inference only.
-/

namespace ClassDiagram

/-- A registry and its relations. -/
structure Diagram where
  /-- The classifiers and the construction evidence. -/
  registry : Registry
  /-- The hierarchy and the relations. -/
  relations : RelationSet
  deriving Repr, BEq

/-- An edge of a diagram. -/
inductive DiagramEdge where
  | hierarchy (edge : HierarchyEdge)
  | relation (relation : Relation)
  deriving Repr, DecidableEq

namespace Diagram

/-- The diagram without classifiers and edges. -/
def empty : Diagram := ⟨.empty, .empty⟩

/-- The diagram of a registry. -/
def ofRegistry (settings : Settings) (registry : Registry) : Diagram :=
  ⟨registry, Inference.infer settings registry⟩

/-- The diagram of source texts, read in order. -/
def ofSources (settings : Settings) (sources : List String) : Diagram :=
  ofRegistry settings (Registry.ofSources settings sources)

/-- Adds a classifier whose name is new. -/
def addClassifier (d : Diagram) (c : Classifier) : Diagram :=
  { d with registry := (d.registry.declare c).2 }

/-- Adds a hierarchy edge; a relation is refused. -/
def addEdge (d : Diagram) : DiagramEdge → Except Failure Diagram
  | .hierarchy e => .ok { d with relations := (d.relations.addHierarchy e).2 }
  | .relation r => .error (.notInferred r)

/-- The edges, the hierarchy first. -/
def edges (d : Diagram) : List DiagramEdge :=
  d.relations.hierarchy.map .hierarchy ++ d.relations.relations.map .relation

end Diagram

end ClassDiagram
