import ClassDiagram.Classifier.Basic
import ClassDiagram.OrderedMap

/-!
# The registry

Everything declared so far, by name, and for each owner the types that it constructs. The first
declaration of a name stays; evidence is kept once. Both are listed in the order in which they came.
-/

namespace ClassDiagram

/-- Declared classifiers, and which types each owner constructs. -/
structure Registry where
  /-- The classifiers by name. -/
  classifiers : OrderedMap String Classifier
  /-- The constructed types by owner. -/
  construction : OrderedMap String (List String)
  deriving Repr, BEq

/-- One piece of construction evidence. -/
structure Construction where
  /-- The class whose constructor or entry point constructs. -/
  owner : String
  /-- The constructed type. -/
  constructed : String
  deriving Repr, DecidableEq

namespace Registry

/-- The registry without any declaration. -/
def empty : Registry := ⟨.empty, .empty⟩

/-- Whether a name is declared. -/
def declares (r : Registry) (name : String) : Bool := r.classifiers.contains name

/-- The classifier of a name. -/
def classifier? (r : Registry) (name : String) : Option Classifier := r.classifiers.get? name

/-- The declared names, in order. -/
def names (r : Registry) : List String := r.classifiers.keys

/-- The types constructed by an owner, in order. -/
def constructedBy? (r : Registry) (owner : String) : Option (List String) :=
  r.construction.get? owner

/-- Declares a classifier; says whether its name was new. -/
def declare (r : Registry) (c : Classifier) : Bool × Registry :=
  if r.declares c.name then (false, r)
  else (true, { r with classifiers := r.classifiers.put c.name c })

/-- Records that an owner constructs a type; says whether that was new. -/
def record (r : Registry) (owner constructed : String) : Bool × Registry :=
  let known := (r.constructedBy? owner).getD []
  (!known.contains constructed,
    { r with construction := r.construction.put owner (appendNew known constructed) })

/-- All construction evidence, owner by owner. -/
def evidence (r : Registry) : List Construction :=
  r.construction.entries.flatMap fun (owner, types) => types.map (Construction.mk owner)

/-- The owners that construct a type, in order. -/
def ownersOf (r : Registry) (constructed : String) : List String :=
  (r.construction.entries.filter fun entry => entry.2.contains constructed).map Prod.fst

/-- The number of declared classifiers. -/
def classifierCount (r : Registry) : Nat := r.classifiers.size

/-- The number of pieces of construction evidence. -/
def evidenceCount (r : Registry) : Nat :=
  r.construction.values.foldl (fun count types => count + types.length) 0

end Registry

end ClassDiagram
