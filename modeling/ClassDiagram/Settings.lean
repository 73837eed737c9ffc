import ClassDiagram.Text.Blank

/-!
# Settings

What a run takes for a container or a built-in type, which method counts as an entry point, which
files it reads, and whether it relates only the classifiers that were declared.
-/

namespace ClassDiagram

/-- The settings of a run. -/
structure Settings where
  /-- The simple names of list-like containers. -/
  containers : List String
  /-- The types that are never related to. -/
  builtins : List String
  /-- The name of the method whose body tells what a class constructs, like a constructor's. -/
  entryPoint : String
  /-- The extension of source files, without a dot. -/
  extension : String
  /-- Whether only declared classifiers are related. -/
  declaredOnly : Bool
  deriving Repr, DecidableEq

/-- Why settings are refused. -/
inductive SettingsError where
  | noEntryPoint
  | noExtension
  deriving Repr, DecidableEq

/-- The reason in words. -/
def SettingsError.message : SettingsError → String
  | noEntryPoint => "entry point must not be empty"
  | noExtension => "source extension must not be empty"

namespace Settings

/-- The settings without any choice made. -/
def default : Settings where
  containers :=
    ["ArrayList", "LinkedList", "List", "Vector", "Set", "HashSet", "TreeSet", "Collection",
     "Queue", "Deque", "ArrayDeque"]
  builtins :=
    ["int", "long", "short", "byte", "double", "float", "char", "boolean", "void", "Integer",
     "Long", "Short", "Byte", "Double", "Float", "Character", "Boolean", "Void", "String",
     "Object", "system"]
  entryPoint := "main"
  extension := "java"
  declaredOnly := false

/-- An extension without the dots in front of it. -/
def bareExtension (extension : String) : String :=
  String.ofList (extension.toList.dropWhile (· == '.'))

/-- The settings with another extension; dots in front of it are dropped. -/
def withExtension (s : Settings) (extension : String) : Settings :=
  { s with extension := bareExtension extension }

/-- The settings with one more container. -/
def withContainer (s : Settings) (name : String) : Settings :=
  if s.containers.contains name then s else { s with containers := s.containers ++ [name] }

/-- The settings with one more built-in type. -/
def withBuiltin (s : Settings) (name : String) : Settings :=
  if s.builtins.contains name then s else { s with builtins := s.builtins ++ [name] }

/-- Whether a simple name is that of a container. -/
def isContainer (s : Settings) (name : String) : Bool := s.containers.contains name

/-- Whether a name is that of a built-in type. -/
def isBuiltin (s : Settings) (name : String) : Bool := s.builtins.contains name

/-- Whether a text holds nothing but blanks. -/
def isVoid (text : String) : Bool := text.toList.all Text.isBlank

/-- Refuses settings that no run can work with; a missing entry point is reported first. -/
def validate (s : Settings) : Except SettingsError Unit :=
  if isVoid s.entryPoint then .error .noEntryPoint
  else if isVoid s.extension then .error .noExtension
  else .ok ()

end Settings

end ClassDiagram
