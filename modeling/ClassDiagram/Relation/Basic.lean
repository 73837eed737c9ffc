/-!
# Relations

A relation joins two classifiers by a dependency, an association, a composition or an aggregation.
All but dependencies can be navigable in both directions, and each end may carry a multiplicity.
Relations are ranked by strength: a dependency is weakest, then come associations, associations with
a multiplicity, and ownership. Hierarchy edges lead from a child to its parent or interface.
-/

namespace ClassDiagram

/-- The kind of a relation; `twoWay` says that both ends navigate to each other. -/
inductive RelationKind where
  | dependency
  | association (twoWay : Bool)
  | composition (twoWay : Bool)
  | aggregation (twoWay : Bool)
  deriving Repr, DecidableEq

namespace RelationKind

/-- Whether both ends navigate to each other. -/
def isTwoWay : RelationKind → Bool
  | dependency => false
  | association twoWay | composition twoWay | aggregation twoWay => twoWay

/-- The arrow of a diagram. -/
def arrow : RelationKind → String
  | dependency => "..>"
  | association false => "-->"
  | association true => "--"
  | composition false => "*-->"
  | composition true => "*--"
  | aggregation false => "o-->"
  | aggregation true => "o--"

/-- The name of the kind. -/
def label : RelationKind → String
  | dependency => "dependency"
  | association _ => "association"
  | composition _ => "composition"
  | aggregation _ => "aggregation"

end RelationKind

/-- The rank of a relation. -/
inductive Strength where
  | dependency
  | association
  | multiplicity
  | ownership
  deriving Repr, DecidableEq

namespace Strength

/-- The place of a strength in the ranking, from zero. -/
def rank : Strength → Nat
  | dependency => 0
  | association => 1
  | multiplicity => 2
  | ownership => 3

/-- The name of the strength. -/
def label : Strength → String
  | dependency => "dependency"
  | association => "association"
  | multiplicity => "multiplicity"
  | ownership => "ownership"

end Strength

/-- A relation between two classifiers. -/
structure Relation where
  /-- The left end. -/
  source : String
  /-- The right end. -/
  target : String
  /-- The kind of the relation. -/
  kind : RelationKind
  /-- The multiplicity at the left end. -/
  sourceLabel? : Option String
  /-- The multiplicity at the right end. -/
  targetLabel? : Option String
  deriving Repr, DecidableEq

namespace Relation

/-- The relation without multiplicities. -/
def plain (source target : String) (kind : RelationKind) : Relation :=
  ⟨source, target, kind, none, none⟩

/-- Whether an end carries a multiplicity. -/
def hasLabel (r : Relation) : Bool := r.sourceLabel?.isSome || r.targetLabel?.isSome

/-- Whether both ends navigate to each other. -/
def isTwoWay (r : Relation) : Bool := r.kind.isTwoWay

/-- The strength of the relation. -/
def strength (r : Relation) : Strength :=
  match r.kind with
  | .dependency => .dependency
  | .association _ => if r.hasLabel then .multiplicity else .association
  | .composition _ | .aggregation _ => .ownership

/-- Whether the relation leads from the given end only. -/
def pointsFrom (r : Relation) (name : String) : Bool := !r.isTwoWay && r.source == name

/-- The relation with its ends exchanged. -/
def flip (r : Relation) : Relation :=
  { r with
    source := r.target
    target := r.source
    sourceLabel? := r.targetLabel?
    targetLabel? := r.sourceLabel? }

/-- The relation with the given end on the left. -/
def orientFrom (r : Relation) (name : String) : Relation := if r.source = name then r else r.flip

/-- Puts a multiplicity on the end called `name`; on the right end when both are. -/
def mark (r : Relation) (name label : String) : Relation :=
  if r.target = name then { r with targetLabel? := some label }
  else if r.source = name then { r with sourceLabel? := some label }
  else r

/-- A multiplicity in quotes behind a space, or nothing. -/
def quoted : Option String → String
  | none => ""
  | some label => " \"" ++ label ++ "\""

/-- The line of the relation in a diagram. -/
def line (r : Relation) : String :=
  r.source ++ quoted r.sourceLabel? ++ " " ++ r.kind.arrow ++ quoted r.targetLabel? ++ " " ++
    r.target

end Relation

/-- The kind of a hierarchy edge. -/
inductive HierarchyKind where
  | inheritance
  | realization
  deriving Repr, DecidableEq

/-- The name of the kind. -/
def HierarchyKind.label : HierarchyKind → String
  | inheritance => "inheritance"
  | realization => "realization"

/-- An edge from a child to its parent or interface. -/
structure HierarchyEdge where
  /-- The classifier that inherits or realizes. -/
  child : String
  /-- Its parent or interface. -/
  parent : String
  /-- The kind of the edge. -/
  kind : HierarchyKind
  deriving Repr, DecidableEq

/-- The line of the edge in a diagram. -/
def HierarchyEdge.line (e : HierarchyEdge) : String :=
  match e.kind with
  | .inheritance => e.parent ++ " <|-- " ++ e.child
  | .realization => e.child ++ " ..|> " ++ e.parent

/-- Two names without their order. -/
structure NamePair where
  /-- The name that comes first. -/
  first : String
  /-- The name that comes second. -/
  second : String
  deriving Repr, DecidableEq

/-- The pair of two names; the lesser name comes first. -/
def NamePair.of (a b : String) : NamePair := if a ≤ b then ⟨a, b⟩ else ⟨b, a⟩

/-- The order in which the names are given does not matter. -/
theorem NamePair.of_comm (a b : String) : NamePair.of a b = NamePair.of b a := by
  unfold NamePair.of
  by_cases h : a ≤ b
  · by_cases h' : b ≤ a
    · have := String.le_antisymm h h'
      simp [this]
    · simp [h, h']
  · have := (String.le_total a b).resolve_left h
    simp [h, this]

namespace Relation

/-- The pair of a relation's ends. -/
def ends (r : Relation) : NamePair := NamePair.of r.source r.target

/-- Exchanging the ends keeps the pair. -/
theorem ends_flip (r : Relation) : r.flip.ends = r.ends := NamePair.of_comm r.target r.source

/-- Turning a relation around keeps the pair. -/
theorem ends_orientFrom (r : Relation) (name : String) : (r.orientFrom name).ends = r.ends := by
  unfold orientFrom
  by_cases h : r.source = name
  · rw [if_pos h]
  · rw [if_neg h, ends_flip]

end Relation

end ClassDiagram
