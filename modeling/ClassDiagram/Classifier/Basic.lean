import ClassDiagram.Classifier.Visibility
import ClassDiagram.TypeExpr.Reader

/-!
# Classifiers

What a source declares: a class, an enumeration or an interface, with the facts that a diagram
shows of it. A constructor is always visible to everyone, whatever its modifiers say.
-/

namespace ClassDiagram

/-- What a declaration declares. -/
inductive ClassifierKind where
  | classType
  | enumType
  | interfaceType
  deriving Repr, DecidableEq

/-- The word that declares a classifier of this kind. -/
def ClassifierKind.keyword : ClassifierKind → String
  | classType => "class"
  | enumType => "enum"
  | interfaceType => "interface"

/-- A field. -/
structure Attribute where
  /-- The name of the field. -/
  name : String
  /-- The type as it was written. -/
  declaredType : String
  /-- The type, if the written form can be read. -/
  type? : Option TypeExpr
  /-- Who may use the field. -/
  visibility : Visibility
  deriving Repr, BEq

/-- The field with the given name, written type and visibility. -/
def Attribute.declare (name declaredType : String) (visibility : Visibility) : Attribute :=
  ⟨name, declaredType, TypeExpr.read? declaredType, visibility⟩

/-- A parameter of a method. -/
structure Parameter where
  /-- The name; empty when only a type was written. -/
  name : String
  /-- The type as it was written. -/
  type : String
  deriving Repr, DecidableEq

/-- What a method does for its classifier. -/
inductive MethodRole where
  | regular
  | constructor
  | entryPoint
  deriving Repr, DecidableEq

/-- The name of the role. -/
def MethodRole.label : MethodRole → String
  | regular => "regular"
  | constructor => "constructor"
  | entryPoint => "entry_point"

/-- A method. -/
structure Method where
  /-- The name of the method. -/
  name : String
  /-- Who may use the method. -/
  visibility : Visibility
  /-- The parameters, in order. -/
  parameters : List Parameter
  /-- What the method is for. -/
  role : MethodRole
  deriving Repr, DecidableEq

/-- The method with the given name, role, declared visibility and parameters. -/
def Method.declare (name : String) (role : MethodRole) (visibility : Visibility)
    (parameters : List Parameter) : Method where
  name := name
  visibility := if role = .constructor then .everyone else visibility
  parameters := parameters
  role := role

/-- A declared class, enumeration or interface. -/
structure Classifier where
  /-- The declared name. -/
  name : String
  /-- What is declared. -/
  kind : ClassifierKind
  /-- The fields, in order. -/
  attributes : List Attribute
  /-- The methods, in order. -/
  methods : List Method
  /-- The parent. -/
  parent? : Option String
  /-- The implemented interfaces, in order. -/
  interfaces : List String
  /-- The names of the type parameters, in order. -/
  typeParameters : List String
  /-- The constants of an enumeration, in order. -/
  constants : List String
  deriving Repr, BEq

/-- The classifier without any members. -/
def Classifier.empty (name : String) (kind : ClassifierKind) : Classifier :=
  ⟨name, kind, [], [], none, [], [], []⟩

/-- Whether `name` is one of the classifier's type parameters. -/
def Classifier.hasTypeParameter (c : Classifier) (name : String) : Bool :=
  c.typeParameters.contains name

end ClassDiagram
