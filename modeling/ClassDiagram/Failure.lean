import ClassDiagram.Relation.Basic
import ClassDiagram.Settings

/-!
# Failures of a run

Only whole runs fail: because a source cannot be had, because of the settings, or because a relation
was added to a diagram by hand.
-/

namespace ClassDiagram

/-- Why a file cannot be read or written. -/
inductive FileError where
  | notFound
  | notDirectory
  | isDirectory
  | nameTooLong
  | badName
  | other (message : String)
  deriving Repr, DecidableEq

/-- The reason in words. -/
def FileError.message : FileError → String
  | notFound => "No such file or directory (os error 2)"
  | notDirectory => "Not a directory (os error 20)"
  | isDirectory => "Is a directory (os error 21)"
  | nameTooLong => "File name too long (os error 36)"
  | badName => "file name contained an unexpected NUL byte"
  | other message => message

/-- Why a run fails. -/
inductive Failure where
  /-- A source file cannot be read. -/
  | unreadable (identifier : String) (cause : FileError)
  /-- A directory cannot be walked. -/
  | unwalkable (root path : String) (cause : FileError)
  /-- There is no source file. -/
  | noSources (root extension : String)
  /-- The settings are refused. -/
  | settings (cause : SettingsError)
  /-- A relation was added by hand. -/
  | notInferred (relation : Relation)
  deriving Repr, DecidableEq

namespace Failure

/-- Whether the sources are to blame. -/
def isSourceFailure : Failure → Bool
  | unreadable .. | unwalkable .. | noSources .. => true
  | settings _ | notInferred _ => false

/-- The failure and its causes in words, outermost first. -/
def message : Failure → String
  | unreadable identifier cause =>
    "Source error: failed to read " ++ identifier ++ ": " ++ cause.message
  | unwalkable root path cause =>
    "Source error: failed to walk " ++ root ++ ": IO error for operation on " ++ path ++ ": " ++
      cause.message ++ ": " ++ cause.message
  | noSources root extension =>
    "Source error: no ." ++ extension ++ " files found under " ++ root
  | settings cause => "Config error: " ++ cause.message
  | notInferred relation =>
    "Render error: relation " ++ relation.line ++ " must be produced by inference"

end Failure

end ClassDiagram
