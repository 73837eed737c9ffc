/-!
# Log formats

The name of a log format is read without regard to case. The names hold no letter that a character
beyond ASCII has for its lower case, so lowering ASCII letters is enough.
-/

namespace ClassDiagram

/-- How log records are written. -/
inductive LogFormat where
  | compact
  | pretty
  | json
  deriving Repr, DecidableEq

namespace LogFormat

/-- The name of the format. -/
def name : LogFormat → String
  | compact => "compact"
  | pretty => "pretty"
  | json => "json"

/-- The format with exactly the given name. -/
def ofName? : String → Option LogFormat
  | "compact" => some compact
  | "pretty" => some pretty
  | "json" => some json
  | _ => none

/-- The format with the given name in any case, or a message. -/
def read (text : String) : Except String LogFormat :=
  match ofName? (String.ofList (text.toList.map Char.toLower)) with
  | some format => .ok format
  | none => .error ("Unknown log format: " ++ text)

end LogFormat

end ClassDiagram
