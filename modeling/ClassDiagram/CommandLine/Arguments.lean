import ClassDiagram.LogFormat

/-!
# Command-line arguments

A command line is general options, a command, and the command's own options. An option is given by a
long name or a letter; letters can be run together, and a value follows as the next argument or is
attached with or without an equals sign. A value that follows is only looked at when the next option
is taken in or the arguments end, so an unknown argument right after it is reported first. What is
wrong with a command's options is reported before what is wrong with the general option in front of
the command.
-/

namespace ClassDiagram.CommandLine

/-- How much is logged. -/
inductive LogLevel where
  | trace
  | debug
  | info
  | warn
  | error
  deriving Repr, DecidableEq

namespace LogLevel

/-- The name of the level. -/
def name : LogLevel → String
  | trace => "trace"
  | debug => "debug"
  | info => "info"
  | warn => "warn"
  | error => "error"

/-- The level with the given name. -/
def ofName? : String → Option LogLevel
  | "trace" => some trace
  | "debug" => some debug
  | "info" => some info
  | "warn" => some warn
  | "error" => some error
  | _ => none

end LogLevel

/-- Why a command line is not carried out. -/
inductive UsageError where
  /-- No option, and no argument of the command, looks like this. -/
  | unknownArgument (argument : String)
  /-- There is no such command. -/
  | unknownCommand (name : String)
  /-- No command is given. -/
  | missingCommand
  /-- Nothing at all is given. -/
  | nothingGiven
  /-- An option lacks its value. -/
  | missingValue (option : String)
  /-- An option does not take this value. -/
  | invalidValue (option value : String)
  /-- An option is given twice. -/
  | repeatedOption (option : String)
  /-- A value is attached to an option that takes none. -/
  | unneededValue (option : String)
  /-- Help is asked for. -/
  | helpRequested
  /-- The version is asked for. -/
  | versionRequested
  deriving Repr, DecidableEq

/-! ## Options -/

/-- What an option takes. -/
inductive ValueKind where
  /-- No value. -/
  | flag
  /-- No value; asks for help. -/
  | help
  /-- No value; asks for the version. -/
  | version
  /-- Any text. -/
  | text
  /-- A path, which is not empty. -/
  | path
  /-- The name of a log level. -/
  | logLevel
  /-- The name of a log format. -/
  | logFormat
  deriving Repr, DecidableEq

namespace ValueKind

/-- Whether an option of this kind takes a value. -/
def takesValue : ValueKind → Bool
  | flag | help | version => false
  | text | path | logLevel | logFormat => true

/-- Whether the option takes this value. -/
def admits : ValueKind → String → Bool
  | path, value => !value.isEmpty
  | logLevel, value => (LogLevel.ofName? value).isSome
  | logFormat, value => (LogFormat.ofName? value).isSome
  | _, _ => true

end ValueKind

/-- An option that a command knows. -/
structure OptionSpec where
  /-- The long name, without dashes. -/
  long : String
  /-- The letter. -/
  short? : Option Char
  /-- What the option takes. -/
  kind : ValueKind
  deriving Repr, DecidableEq

/-- The general options. -/
def generalOptions : List OptionSpec :=
  [⟨"verbose", some 'v', .flag⟩, ⟨"log-level", none, .logLevel⟩, ⟨"log-format", none, .logFormat⟩,
   ⟨"help", some 'h', .help⟩, ⟨"version", some 'V', .version⟩]

/-- The options of every command. -/
def sourceOptions : List OptionSpec :=
  [⟨"input", some 'i', .path⟩, ⟨"extension", none, .text⟩, ⟨"entry-point", none, .text⟩,
   ⟨"declared-only", none, .flag⟩, ⟨"help", some 'h', .help⟩]

/-- The options of the command that writes a diagram. -/
def generateOptions : List OptionSpec := ⟨"output", some 'o', .path⟩ :: sourceOptions

/-- The options of the command that writes a report. -/
def inspectOptions : List OptionSpec := ⟨"json", none, .flag⟩ :: sourceOptions

/-! ## Taking in options -/

/-- The options taken in so far. -/
structure Given where
  /-- The options with their values, by long name. -/
  values : List (String × String)
  /-- An option whose value is still to be looked at, or still to come. -/
  pending? : Option (OptionSpec × Option String)
  deriving Repr, DecidableEq

namespace Given

/-- No options. -/
def none : Given := ⟨[], .none⟩

/-- Whether an option waits for its value. -/
def awaitsValue (g : Given) : Bool :=
  match g.pending? with
  | some (_, .none) => true
  | _ => false

/-- Takes in an option with its value; giving it twice is reported before a bad value is. -/
def insert (g : Given) (spec : OptionSpec) (value : String) : Except UsageError Given :=
  if (g.values.lookup spec.long).isSome then .error (.repeatedOption spec.long)
  else if spec.kind.admits value then .ok { g with values := g.values ++ [(spec.long, value)] }
  else .error (.invalidValue spec.long value)

/-- Looks at the option that is pending. -/
def settle (g : Given) : Except UsageError Given :=
  match g.pending? with
  | .none => .ok g
  | some (spec, .none) => .error (.missingValue spec.long)
  | some (spec, some value) => { g with pending? := .none }.insert spec value

/-- Takes in an option that takes no value. -/
def raise (g : Given) (spec : OptionSpec) : Except UsageError Given := do
  let g ← g.settle
  match spec.kind with
  | .help => .error .helpRequested
  | .version => .error .versionRequested
  | _ => g.insert spec ""

/-- Takes in an option that takes a value, which may be attached. -/
def accept (g : Given) (spec : OptionSpec) (attached? : Option String) :
    Except UsageError Given := do
  let g ← g.settle
  match attached? with
  | some value => g.insert spec value
  | .none => .ok { g with pending? := some (spec, .none) }

/-- The value of an option. -/
def value? (g : Given) (long : String) : Option String := g.values.lookup long

/-- Whether an option is given. -/
def has (g : Given) (long : String) : Bool := (g.value? long).isSome

end Given

/-- Takes in an argument that starts with two dashes: a name, and what an equals sign attaches. -/
def longOption (specs : List OptionSpec) (g : Given) (body : List Char) : Except UsageError Given :=
  let name := String.ofList (body.takeWhile (· != '='))
  let attached? :=
    match body.dropWhile (· != '=') with
    | [] => none
    | _ :: value => some (String.ofList value)
  match specs.find? fun spec => spec.long == name with
  | none => .error (.unknownArgument ("--" ++ name))
  | some spec =>
    if spec.kind.takesValue then g.accept spec attached?
    else if attached?.isSome then .error (.unneededValue name)
    else g.raise spec

/-- Takes in the letters behind one dash. -/
def shortOptions (specs : List OptionSpec) : Given → List Char → Except UsageError Given
  | g, [] => .ok g
  | g, c :: cs =>
    match specs.find? fun spec => spec.short? == some c with
    | none => .error (.unknownArgument (String.ofList ['-', c]))
    | some spec =>
      if spec.kind.takesValue then
        match cs with
        | [] => g.accept spec none
        | '=' :: value => g.accept spec (some (String.ofList value))
        | value => g.accept spec (some (String.ofList value))
      else (g.raise spec).bind fun g => shortOptions specs g cs

/-- What an argument looks like. -/
inductive Shape where
  | long (body : List Char)
  | short (letters : List Char)
  | escape
  | plain
  deriving Repr, DecidableEq

/-- The shape of an argument; a single dash is plain. -/
def shape (argument : String) : Shape :=
  match argument.toList with
  | ['-', '-'] => .escape
  | '-' :: '-' :: body => .long body
  | ['-'] => .plain
  | '-' :: letters => .short letters
  | _ => .plain

/-- Takes in options until an argument is neither an option nor the value of one: gives that
argument and the ones behind it, and whether it stands behind a double dash. -/
def takeOptions (specs : List OptionSpec) (isCommand : String → Bool) :
    Given → List String → Except UsageError (Given × List String × Bool)
  | g, [] => .ok (g, [], false)
  | g, argument :: rest =>
    if !g.awaitsValue && isCommand argument then .ok (g, argument :: rest, false)
    else
      match shape argument with
      | .escape => .ok (g, rest, true)
      | .long body => (longOption specs g body).bind (takeOptions specs isCommand · rest)
      | .short letters => (shortOptions specs g letters).bind (takeOptions specs isCommand · rest)
      | .plain =>
        match g.pending? with
        | some (spec, none) =>
          takeOptions specs isCommand { g with pending? := some (spec, some argument) } rest
        | _ => .ok (g, argument :: rest, false)

/-! ## Commands -/

/-- Where the sources are and how they are read. -/
structure SourceChoice where
  /-- The directory or file to read. -/
  input : String
  /-- The extension of source files. -/
  extension : String
  /-- The name of the entry point. -/
  entryPoint : String
  /-- Whether only declared classifiers are related. -/
  declaredOnly : Bool
  deriving Repr, DecidableEq

/-- What is to be done. -/
inductive Command where
  /-- Write the diagram, to a file if one is given. -/
  | generate (source : SourceChoice) (output? : Option String)
  /-- Write a report. -/
  | inspect (source : SourceChoice) (json : Bool)
  deriving Repr, DecidableEq

/-- A command line that can be carried out. -/
structure Invocation where
  /-- What is to be done. -/
  command : Command
  /-- Whether progress is told. -/
  verbose : Bool
  /-- How much is logged. -/
  logLevel : LogLevel
  /-- How log records are written. -/
  logFormat : LogFormat
  deriving Repr, DecidableEq

/-- The sources chosen by options. -/
def SourceChoice.ofGiven (g : Given) : SourceChoice where
  input := (g.value? "input").getD "."
  extension := (g.value? "extension").getD "java"
  entryPoint := (g.value? "entry-point").getD "main"
  declaredOnly := g.has "declared-only"

/-- The commands with their options, and what is to be done with these. -/
def commands : List (String × List OptionSpec × (Given → Command)) :=
  [("generate", generateOptions, fun g => .generate (.ofGiven g) (g.value? "output")),
   ("inspect", inspectOptions, fun g => .inspect (.ofGiven g) (g.has "json"))]

/-- The names of commands, the one that shows help included. -/
def isCommandName (name : String) : Bool := name == "help" || (commands.lookup name).isSome

/-- Reads the arguments of a command, which are options only. -/
def readCommand (specs : List OptionSpec) (make : Given → Command) (arguments : List String) :
    Except UsageError Command := do
  let (g, rest, _) ← takeOptions specs (fun _ => false) .none arguments
  match rest with
  | [] => return make (← g.settle)
  | argument :: _ => .error (.unknownArgument argument)

/-- What is said to someone who asks for help on the named commands: a command has none below it. -/
def helpOn : List String → UsageError
  | [] => .helpRequested
  | [name] => if isCommandName name then .helpRequested else .unknownCommand name
  | name :: below :: _ => .unknownCommand (if isCommandName name then below else name)

/-- Reads a command line, without the name of the program. -/
def Invocation.read (arguments : List String) : Except UsageError Invocation := do
  let (g, rest, escaped) ← takeOptions generalOptions isCommandName .none arguments
  match rest with
  | [] =>
    let g ← g.settle
    .error (if g.values.isEmpty then .nothingGiven else .missingCommand)
  | name :: arguments =>
    if escaped then
      .error (if isCommandName name then .unknownArgument name else .unknownCommand name)
    else if name == "help" then .error (helpOn arguments)
    else
      match commands.lookup name with
      | none => .error (.unknownCommand name)
      | some (specs, make) =>
        let command ← readCommand specs make arguments
        let g ← g.settle
        return {
          command := command
          verbose := g.has "verbose"
          logLevel := ((g.value? "log-level").bind LogLevel.ofName?).getD .warn
          logFormat := ((g.value? "log-format").bind LogFormat.ofName?).getD .compact }

end ClassDiagram.CommandLine
