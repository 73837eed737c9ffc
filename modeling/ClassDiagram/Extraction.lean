import ClassDiagram.Registry
import ClassDiagram.Settings
import ClassDiagram.Source.Block
import ClassDiagram.Source.Field
import ClassDiagram.Source.Instantiation
import ClassDiagram.Source.Noise
import ClassDiagram.Source.Signature
import ClassDiagram.Source.Supertypes

/-!
# Extraction

What a source text tells about the classifier that it declares, and which types that classifier
constructs. Reading never fails: what cannot be read is left out, and a text without a declaration
tells nothing. A text is read on its own; the registry only decides whether its name is new.
-/

namespace ClassDiagram

open Text Source

/-- What a source text tells. -/
structure Extract where
  /-- The declared classifier. -/
  classifier : Classifier
  /-- The types that its constructors and entry points construct, as often as they are met. -/
  constructed : List String
  deriving Repr, BEq

namespace Extract

/-- The role of a method called `name` in the class `owner`. -/
def roleOf (settings : Settings) (owner name : String) : MethodRole :=
  if name = owner then .constructor
  else if name = settings.entryPoint then .entryPoint
  else .regular

/-- The method of a signature. -/
def method (role : MethodRole) (s : Signature) : Method :=
  Method.declare s.name role s.visibility (parameters s.parameters)

/-- The enumeration of a declaration. -/
def enumeration (d : Declaration) : Classifier :=
  { Classifier.empty d.name .enumType with constants := d.constants }

/-- The interface of a declaration. -/
def interface (text : List Char) (d : Declaration) : Classifier :=
  { Classifier.empty d.name .interfaceType with
    typeParameters := d.typeParameters
    parent? := (Supertypes.ofHeader d.header).parent?
    methods := (Signature.findAll text d.start.offset d.name).map (method .regular) }

/-- The part of a class that declares its fields: from the declaration to the first signature. -/
def fieldArea (d : Declaration) (signatures : List Signature) : List Char :=
  match signatures with
  | [] => d.start.rest
  | first :: _ => d.start.upTo first.start

/-- The fields of a class. -/
def attributes (d : Declaration) (signatures : List Signature) : List Attribute :=
  ((Field.findAll (fieldArea d signatures)).filter fun f => f.name != d.name).map fun f =>
    Attribute.declare f.name f.type f.visibility

/-- The types that a signature's body constructs, containers apart; regular methods do not count. -/
def constructedIn (settings : Settings) (owner : String) (s : Signature) : List String :=
  if roleOf settings owner s.name = .regular then []
  else
    match s.body?.bind block? with
    | none => []
    | some body => (Instantiation.findAll body).filter fun type => !settings.isContainer type

/-- The class of a declaration, and what it constructs. -/
def ofClass (settings : Settings) (text : List Char) (d : Declaration) : Extract :=
  let supertypes := Supertypes.ofHeader d.header
  let signatures := Signature.findAll text d.start.offset d.name
  { classifier :=
      { Classifier.empty d.name .classType with
        typeParameters := d.typeParameters
        parent? := supertypes.parent?
        interfaces := supertypes.interfaces
        attributes := attributes d signatures
        methods := signatures.map fun s => method (roleOf settings d.name s.name) s }
    constructed := signatures.flatMap (constructedIn settings d.name) }

/-- What a source text tells, if it declares anything. -/
def ofSource? (settings : Settings) (source : String) : Option Extract :=
  let text := stripNoise source.toList
  (Declaration.find? text).map fun d =>
    match d.kind with
    | .classType => ofClass settings text d
    | .enumType => ⟨enumeration d, []⟩
    | .interfaceType => ⟨interface text d, []⟩

end Extract

namespace Registry

/-- Whether a source text declares anything. -/
def canRead (source : String) : Bool := (Declaration.find? (stripNoise source.toList)).isSome

/-- Takes in what a source text tells, if it declares a new name. -/
def enroll (r : Registry) (e : Extract) : Registry :=
  if r.declares e.classifier.name then r
  else
    e.constructed.foldl (fun r type => (r.record e.classifier.name type).2)
      (r.declare e.classifier).2

/-- Reads a source text into the registry. -/
def read (settings : Settings) (r : Registry) (source : String) : Registry :=
  match Extract.ofSource? settings source with
  | some e => r.enroll e
  | none => r

/-- The registry of the given source texts, read in order. -/
def ofSources (settings : Settings) (sources : List String) : Registry :=
  sources.foldl (read settings) empty

end Registry

end ClassDiagram
