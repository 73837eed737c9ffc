import ClassDiagram.Failure

/-!
# File trees

A file tree is a file, which may be unreadable, or a directory of named trees. Paths are written
with slashes; `.` stays in a directory, `..` goes back up, and every part before the last one must
be a directory. Names and paths have a greatest length. Nothing is known above the tree's own root.
-/

namespace ClassDiagram

/-- A file or a directory. -/
inductive FileTree where
  /-- A file with its bytes. -/
  | file (bytes : List UInt8)
  /-- A file that cannot be read. -/
  | unreadable (cause : FileError)
  /-- A directory with its entries. -/
  | directory (entries : List (String × FileTree))

namespace FileTree

/-- The parts of a path between its slashes. -/
def parts (path : String) : List String := path.splitOn "/"

/-- Whether a name has more bytes than an entry of a directory may have. -/
def tooLong (name : String) : Bool := 255 < name.utf8ByteSize

/-- Refuses what is no path: a text that is empty, holds a NUL character or has too many bytes. -/
def checkPath (path : String) : Except FileError Unit :=
  if path.toList.contains '\x00' then .error .badName
  else if path.isEmpty then .error .notFound
  else if 4096 ≤ path.utf8ByteSize then .error .nameTooLong
  else .ok ()

/-- The entry of a name. -/
def child? (name : String) : List (String × FileTree) → Option FileTree
  | [] => none
  | (n, tree) :: rest => if n = name then some tree else child? name rest

/-- The tree at the end of a list of names. -/
def lookup? : FileTree → List String → Option FileTree
  | tree, [] => some tree
  | directory entries, name :: names => (child? name entries).bind (lookup? · names)
  | _, _ :: _ => none

/-- Follows the parts of a path from a tree below `root`; `above` are the names that lead to the
tree, last one first. Gives the names that lead to the end of the path, last one first, and the tree
there. -/
def follow (root : FileTree) :
    List String → FileTree → List String → Except FileError (List String × FileTree)
  | above, tree, [] => .ok (above, tree)
  | above, directory entries, part :: rest =>
    if part = "" ∨ part = "." then follow root above (directory entries) rest
    else if part = ".." then
      match above with
      | [] => .error .notFound
      | _ :: above =>
        match root.lookup? above.reverse with
        | some parent => follow root above parent rest
        | none => .error .notFound
    else
      match child? part entries with
      | some tree => follow root (part :: above) tree rest
      | none => .error (if tooLong part then .nameTooLong else .notFound)
  | _, _, _ :: _ => .error .notDirectory

/-- The tree at a path. A path from the file system's root leads out of the tree. -/
def resolve (root : FileTree) (path : String) : Except FileError FileTree := do
  checkPath path
  if path.startsWith "/" then .error .notFound
  else (follow root [] root (parts path)).map Prod.snd

/-! ## Files -/

/-- A file found in a tree. -/
structure Found where
  /-- The names from the tree's root to the file. -/
  path : List String
  /-- The contents, if they can be had. -/
  contents : Except FileError (List UInt8)

mutual

/-- All files of a tree below the given names. -/
def filesBelow (above : List String) : FileTree → List Found
  | file bytes => [⟨above, .ok bytes⟩]
  | unreadable cause => [⟨above, .error cause⟩]
  | directory entries => entryFiles above entries

/-- All files of a directory's entries. -/
def entryFiles (above : List String) : List (String × FileTree) → List Found
  | [] => []
  | (name, tree) :: rest => filesBelow (above ++ [name]) tree ++ entryFiles above rest

end

/-- All files of a tree. -/
def files (tree : FileTree) : List Found := filesBelow [] tree

/-! ## Writing -/

/-- Puts a tree into a directory's entries, in place of the one that has the name. -/
def putEntry (name : String) (tree : FileTree) :
    List (String × FileTree) → List (String × FileTree)
  | [] => [(name, tree)]
  | (n, t) :: rest => if n = name then (n, tree) :: rest else (n, t) :: putEntry name tree rest

/-- Puts the tree `new` at the end of a list of names; directories on the way are made as needed,
and a file on the way gives way to a directory. -/
def put : FileTree → FileTree → List String → FileTree
  | _, new, [] => new
  | directory entries, new, name :: names =>
    let below := (child? name entries).getD (directory [])
    directory (putEntry name (put below new names) entries)
  | _, new, name :: names => directory [(name, put (directory []) new names)]

/-- Writes a file at a path. Its directory must be there, and no directory may have its name. A path
that ends in a slash or a dot stands for a directory, whether there is one or not. -/
def write (root : FileTree) (path : String) (bytes : List UInt8) : Except FileError FileTree := do
  checkPath path
  let backwards := (parts path).reverse
  match backwards.dropWhile String.isEmpty with
  | [] => .error .isDirectory
  | name :: before =>
    if path.startsWith "/" then .error .notFound
    else
      let (above, parent) ← follow root [] root before.reverse
      match parent with
      | directory entries =>
        if backwards.head? = some "" ∨ name = "." ∨ name = ".." then .error .isDirectory
        else if tooLong name then .error .nameTooLong
        else
          match child? name entries with
          | some (directory _) => .error .isDirectory
          | _ => return root.put (file bytes) (name :: above).reverse
      | _ => .error .notDirectory

end FileTree

end ClassDiagram
