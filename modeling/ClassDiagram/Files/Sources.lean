import ClassDiagram.Files.Tree
import ClassDiagram.Text.Utf8

/-!
# Source files

The source files below a root are the files with the right extension, in the order of their paths,
name by name. A file's extension is what follows the last dot of its name; a dot in front of the
name does not count. A source is known by its path below the root, or by the root itself when the
root is the file.
-/

namespace ClassDiagram

/-- A source text and what it is known by. -/
structure SourceUnit where
  /-- The path of the source. -/
  identifier : String
  /-- The text of the source. -/
  text : String
  deriving Repr, DecidableEq

namespace SourceUnit

/-- The extension of a file name. -/
def extension? (name : String) : Option String :=
  let backwards := name.toList.reverse
  match backwards.dropWhile (· != '.') with
  | _ :: _ :: _ => some (String.ofList (backwards.takeWhile (· != '.')).reverse)
  | _ => none

/-- The name of a file found below a root. -/
def fileName (root : String) (found : FileTree.Found) : String :=
  (found.path.getLast?.or (FileTree.parts root).getLast?).getD ""

/-- What a file found below a root is known by. -/
def identifierOf (root : String) (found : FileTree.Found) : String :=
  if found.path.isEmpty then root else String.intercalate "/" found.path

/-- Whether a file comes before another, or is it: names are compared from the root on. -/
def inOrder (a b : FileTree.Found) : Bool := !b.path.lex a.path

/-- The source of a file found below a root. -/
def ofFile (root : String) (found : FileTree.Found) : Except Failure SourceUnit :=
  match found.contents with
  | .ok bytes => .ok ⟨identifierOf root found, Text.Utf8.decode bytes⟩
  | .error cause => .error (.unreadable (identifierOf root found) cause)

/-- The sources among the files found below a root; the first one that cannot be read spoils all. -/
def ofFiles (root extension : String) (found : List FileTree.Found) :
    Except Failure (List SourceUnit) :=
  match found.filter fun f => extension? (fileName root f) == some extension with
  | [] => .error (.noSources root extension)
  | sources => (sources.mergeSort inOrder).mapM (ofFile root)

/-- The sources below a root, given what is there. -/
def ofTree (root extension : String) (tree : Except FileError FileTree) :
    Except Failure (List SourceUnit) :=
  match tree with
  | .error cause => .error (.unwalkable root root cause)
  | .ok tree => ofFiles root extension tree.files

end SourceUnit

end ClassDiagram
