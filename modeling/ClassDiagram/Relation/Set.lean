import ClassDiagram.OrderedMap
import ClassDiagram.Relation.Evidence

/-!
# Relation sets

Hierarchy edges, each kept once, and relations, at most one for each pair of names. Both are listed
in the order in which they came; a relation that replaces another takes its place. All changes to
relations go through `RelationSet.apply`, which touches one pair only.
-/

namespace ClassDiagram

/-- The edges of a diagram. -/
structure RelationSet where
  /-- The hierarchy edges, in order. -/
  hierarchy : List HierarchyEdge
  /-- The relations by pair of names. -/
  edges : OrderedMap NamePair Relation
  deriving Repr, BEq

namespace RelationSet

/-- The set without edges. -/
def empty : RelationSet := ⟨[], .empty⟩

/-- The relation between two names, in either order. -/
def get? (s : RelationSet) (a b : String) : Option Relation := s.edges.get? (NamePair.of a b)

/-- The relations, in order. -/
def relations (s : RelationSet) : List Relation := s.edges.values

/-- The number of edges of both families. -/
def size (s : RelationSet) : Nat := s.hierarchy.length + s.edges.size

/-- One line for each edge, the hierarchy first. -/
def lines (s : RelationSet) : List String :=
  s.hierarchy.map HierarchyEdge.line ++ s.relations.map Relation.line

/-- Adds a hierarchy edge that is not yet there. -/
def addHierarchy (s : RelationSet) (e : HierarchyEdge) : Change × RelationSet :=
  (if s.hierarchy.contains e then .unchanged else .inserted,
    { s with hierarchy := appendNew s.hierarchy e })

/-- Applies a rule to the pair of two names. -/
def apply (s : RelationSet) (a b : String) (rule : Option Relation → Outcome) :
    Change × RelationSet :=
  let outcome := rule (s.get? a b)
  match outcome.relation? with
  | none => (outcome.change, s)
  | some r => (outcome.change, { s with edges := s.edges.put (NamePair.of a b) r })

/-- Takes in that `owner` holds a reference to `target`. -/
def associate (s : RelationSet) (owner target : String) : Change × RelationSet :=
  s.apply owner target (Evidence.reference owner target)

/-- Takes in that `owner` holds a collection of `element`. -/
def associateMany (s : RelationSet) (owner element : String) : Change × RelationSet :=
  s.apply owner element (Evidence.collection owner element)

/-- Takes in that `owner` constructs `target`. -/
def compose (s : RelationSet) (owner target : String) : Change × RelationSet :=
  s.apply owner target (Evidence.creation owner target)

/-- Takes in that `owner` is not the only one to construct `target`. -/
def share (s : RelationSet) (owner target : String) : Change × RelationSet :=
  s.apply owner target (Evidence.sharing owner)

/-- Takes in that `owner` uses `target` in passing. -/
def depend (s : RelationSet) (owner target : String) : Change × RelationSet :=
  s.apply owner target (Evidence.usage owner target)

end RelationSet

end ClassDiagram
