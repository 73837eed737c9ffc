import ClassDiagram.Registry
import ClassDiagram.Relation.Set
import ClassDiagram.Settings

/-!
# Inference

Five passes turn a registry into a relation set. Each pass lists its evidence in the order of the
registry and takes it in piece by piece:

* `hierarchyEvidence`: parents and interfaces;
* `referenceEvidence`: fields whose type is another classifier;
* `collectionEvidence`: fields that hold a container of another classifier;
* `creationEvidence` and `sharingEvidence`: what constructors and entry points construct, and what
  more than one owner constructs;
* `usageEvidence`: parameters of methods, where no field has their type.
-/

namespace ClassDiagram

namespace Inference

/-- The simple name of a type that may be related to. Arrays, wildcards, parameterized types and
built-in types are not, nor, if the settings say so, what is not declared. -/
def knownTarget? (settings : Settings) (registry : Registry) (t : TypeExpr) : Option String :=
  let name := t.simpleName
  if t.isWildcard || t.isArray || t.isParameterized then none
  else if name.isEmpty || settings.isBuiltin name || settings.isBuiltin t.name then none
  else if settings.declaredOnly && !registry.declares name then none
  else some name

/-- The known target of a type inside `owner`, whose type parameters are no classifiers. -/
def memberTarget? (settings : Settings) (registry : Registry) (owner : Classifier)
    (t : TypeExpr) : Option String :=
  (knownTarget? settings registry t).filter fun name => !owner.hasTypeParameter name

/-- Whether a type is a container. -/
def isContainer (settings : Settings) (t : TypeExpr) : Bool :=
  !t.isArray && settings.isContainer t.simpleName

/-- What a type is about: the element of a container, if it has one, and any other type itself. -/
def subject? (settings : Settings) (t : TypeExpr) : Option TypeExpr :=
  if isContainer settings t then t.element? else some t

/-- An owner and what it is related to. -/
abbrev Piece := String × String

/-! ## Evidence -/

/-- Whether a parent or interface may be drawn. -/
def isHierarchyTarget (settings : Settings) (registry : Registry) (name : String) : Bool :=
  !settings.declaredOnly || registry.declares name

/-- The hierarchy edges of a classifier: its parent, then its interfaces. -/
def hierarchyOf (settings : Settings) (registry : Registry) (c : Classifier) :
    List HierarchyEdge :=
  let parents := c.parent?.toList.map fun name => HierarchyEdge.mk c.name name .inheritance
  let interfaces := c.interfaces.map fun name => HierarchyEdge.mk c.name name .realization
  (parents ++ interfaces).filter fun e => isHierarchyTarget settings registry e.parent

/-- The hierarchy edges of all classifiers. -/
def hierarchyEvidence (settings : Settings) (registry : Registry) : List HierarchyEdge :=
  registry.classifiers.values.flatMap (hierarchyOf settings registry)

/-- The target of a field that is not a container. -/
def referenceTarget? (settings : Settings) (registry : Registry) (c : Classifier)
    (a : Attribute) : Option String :=
  a.type?.bind fun t =>
    if isContainer settings t then none else memberTarget? settings registry c t

/-- The target of a field that is a container. -/
def collectionTarget? (settings : Settings) (registry : Registry) (c : Classifier)
    (a : Attribute) : Option String :=
  a.type?.bind fun t =>
    if isContainer settings t then t.element?.bind (memberTarget? settings registry c) else none

/-- References by fields. -/
def referenceEvidence (settings : Settings) (registry : Registry) : List Piece :=
  registry.classifiers.values.flatMap fun c =>
    (c.attributes.filterMap (referenceTarget? settings registry c)).map (Prod.mk c.name)

/-- Collections held by fields. -/
def collectionEvidence (settings : Settings) (registry : Registry) : List Piece :=
  registry.classifiers.values.flatMap fun c =>
    (c.attributes.filterMap (collectionTarget? settings registry c)).map (Prod.mk c.name)

/-- Constructed types that may be related to. -/
def creationEvidence (settings : Settings) (registry : Registry) : List Piece :=
  registry.evidence.filterMap fun e =>
    (knownTarget? settings registry (.ofName e.constructed)).map (Prod.mk e.owner)

/-- Constructed types that more than one owner constructs. -/
def sharingEvidence (registry : Registry) : List Piece :=
  (registry.evidence.filter fun e => 2 ≤ (registry.ownersOf e.constructed).length).map fun e =>
    (e.owner, e.constructed)

/-- The simple names of what the fields of a classifier are about. -/
def heldNames (settings : Settings) (c : Classifier) : List String :=
  c.attributes.filterMap fun a => (a.type?.bind (subject? settings)).map TypeExpr.simpleName

/-- The target of a parameter, unless a field has its type. -/
def usageTarget? (settings : Settings) (registry : Registry) (c : Classifier)
    (p : Parameter) : Option String :=
  (((TypeExpr.read? p.type).bind (subject? settings)).bind
    (memberTarget? settings registry c)).filter fun name => !(heldNames settings c).contains name

/-- Types used by parameters; the parameters of constructors do not count. -/
def usageEvidence (settings : Settings) (registry : Registry) : List Piece :=
  registry.classifiers.values.flatMap fun c =>
    let methods := c.methods.filter fun m => m.role != .constructor
    let parameters := methods.flatMap Method.parameters
    (parameters.filterMap (usageTarget? settings registry c)).map (Prod.mk c.name)

/-! ## Passes -/

/-- Takes in evidence piece by piece. -/
def takeIn (rule : RelationSet → String → String → Change × RelationSet) (pieces : List Piece)
    (s : RelationSet) : RelationSet :=
  pieces.foldl (fun s piece => (rule s piece.1 piece.2).2) s

/-- Adds the hierarchy. -/
def hierarchyPass (settings : Settings) (registry : Registry) (s : RelationSet) : RelationSet :=
  (hierarchyEvidence settings registry).foldl (fun s e => (s.addHierarchy e).2) s

/-- Takes in references by fields. -/
def referencePass (settings : Settings) (registry : Registry) (s : RelationSet) : RelationSet :=
  takeIn RelationSet.associate (referenceEvidence settings registry) s

/-- Takes in collections held by fields. -/
def collectionPass (settings : Settings) (registry : Registry) (s : RelationSet) : RelationSet :=
  takeIn RelationSet.associateMany (collectionEvidence settings registry) s

/-- Takes in constructions, and then which of them are shared. -/
def constructionPass (settings : Settings) (registry : Registry) (s : RelationSet) :
    RelationSet :=
  takeIn RelationSet.share (sharingEvidence registry)
    (takeIn RelationSet.compose (creationEvidence settings registry) s)

/-- Takes in the use of types by parameters. -/
def usagePass (settings : Settings) (registry : Registry) (s : RelationSet) : RelationSet :=
  takeIn RelationSet.depend (usageEvidence settings registry) s

/-- The relation set of a registry: the five passes in order. -/
def infer (settings : Settings) (registry : Registry) : RelationSet :=
  usagePass settings registry <| constructionPass settings registry <|
    collectionPass settings registry <| referencePass settings registry <|
      hierarchyPass settings registry .empty

end Inference

end ClassDiagram
