import ClassDiagram.CommandLine.Arguments
import ClassDiagram.Document
import ClassDiagram.Files.Sources
import ClassDiagram.Report

/-!
# Runs

A run reads sources, and writes a document or a report and messages about its progress. It is told
what there is at the place where it reads, and it answers what is to be printed and what is to be
written to a file, so that the outer layer only has to carry this out.
-/

namespace ClassDiagram

/-- The diagram of sources that may not be had. Settings are checked before the sources are looked
at. -/
def Diagram.build (settings : Settings) (sources : Except Failure (List SourceUnit)) :
    Except Failure Diagram :=
  match settings.validate with
  | .error cause => .error (.settings cause)
  | .ok () => sources.map fun units => ofSources settings (units.map SourceUnit.text)

namespace CommandLine

/-- The name and version of the program. -/
def programName : String := "classweave"

/-- The version of the program. -/
def programVersion : String := "0.1.0"

/-- What a run leaves behind. -/
structure Finish where
  /-- The exit code. -/
  exitCode : Nat
  /-- What is printed. -/
  output : String
  /-- The messages on the side, one line each. -/
  messages : List String
  /-- A file to write, and its text. -/
  file? : Option (String × String)
  deriving Repr, DecidableEq

/-- The settings chosen on the command line. -/
def SourceChoice.settings (c : SourceChoice) : Settings :=
  { Settings.default.withExtension c.extension with
    entryPoint := c.entryPoint
    declaredOnly := c.declaredOnly }

/-- The sources of a command. -/
def Command.source : Command → SourceChoice
  | generate source _ => source
  | inspect source _ => source

/-- The place where a command reads. -/
def Invocation.input (i : Invocation) : String := i.command.source.input

/-- A warning if the log format asked for by the environment, or else by an option, is unknown. -/
def Invocation.logWarnings (i : Invocation) (environment? : Option String) : List String :=
  match LogFormat.read (environment?.getD i.logFormat.name) with
  | .ok _ => []
  | .error reason => ["Warning: Failed to initialize logging: Invalid log format: " ++ reason]

/-- Messages that are only told when progress is. -/
def Invocation.progress (i : Invocation) (messages : List String) : List String :=
  if i.verbose then messages else []

/-- The end of a run that fails. -/
def Finish.failed (messages : List String) (reason : String) : Finish :=
  ⟨1, "", messages ++ ["Error: " ++ reason], none⟩

/-- Prints a text, or puts it into a file unless that is called `-`. -/
def Finish.deliver (messages : List String) (output? : Option String) (text : String) : Finish :=
  match output? with
  | some path =>
    if path = "-" then ⟨0, text, messages, none⟩ else ⟨0, "", messages, some (path, text)⟩
  | none => ⟨0, text, messages, none⟩

/-- Carries out a command line, given what there is at its input. -/
def Invocation.run (i : Invocation) (logFormat? : Option String)
    (tree : Except FileError FileTree) : Finish :=
  let messages := i.logWarnings logFormat? ++
    i.progress [programName ++ " v" ++ programVersion, "Scanning " ++ i.input]
  let settings := i.command.source.settings
  match Diagram.build settings (SourceUnit.ofTree i.input settings.extension tree) with
  | .error failure => .failed messages failure.message
  | .ok diagram =>
    match i.command with
    | .generate _ output? =>
      let document := diagram.render settings
      let size := "Generated " ++ toString document.utf8ByteSize ++ " bytes of PlantUML"
      .deliver (messages ++ i.progress [size]) output? document
    | .inspect _ json => .deliver messages none (diagram.report json)

/-- The end of a run whose file was written, or could not be. -/
def Finish.afterWriting (f : Finish) (path : String) : Except FileError Unit → Finish
  | .ok () => { f with file? := none }
  | .error cause =>
    .failed f.messages ("Failed to write output file '" ++ path ++ "': " ++ cause.message)

/-- How the program is used. -/
def usage : String :=
  "Usage: " ++ programName ++ " [OPTIONS] <COMMAND>\n\n" ++
  "Commands:\n" ++
  "  generate  Generate a PlantUML class diagram\n" ++
  "  inspect   Show the extracted classes and inferred relations\n" ++
  "  help      Print this message\n\n" ++
  "Options:\n" ++
  "  -v, --verbose              Enable verbose output\n" ++
  "      --log-level <LEVEL>    trace, debug, info, warn or error\n" ++
  "      --log-format <FORMAT>  compact, pretty or json\n" ++
  "  -h, --help                 Print help\n" ++
  "  -V, --version              Print version\n"

/-- What is wrong with a command line, in words. -/
def UsageError.message : UsageError → String
  | unknownArgument argument => "error: unexpected argument '" ++ argument ++ "' found"
  | unknownCommand name => "error: unrecognized subcommand '" ++ name ++ "'"
  | missingCommand => "error: a subcommand is required but one was not provided"
  | nothingGiven => usage
  | missingValue option => "error: a value is required for '--" ++ option ++ "'"
  | invalidValue option value => "error: invalid value '" ++ value ++ "' for '--" ++ option ++ "'"
  | repeatedOption option =>
    "error: the argument '--" ++ option ++ "' cannot be used multiple times"
  | unneededValue option => "error: unexpected value for '--" ++ option ++ "'"
  | helpRequested => usage
  | versionRequested => programName ++ " " ++ programVersion ++ "\n"

/-- The end of a run that has nothing to carry out: help and version are printed, all else is told
on the side. -/
def UsageError.finish (e : UsageError) : Finish :=
  match e with
  | helpRequested | versionRequested => ⟨0, e.message, [], none⟩
  | _ => ⟨2, "", [e.message], none⟩

/-- Runs the program in a directory: reads there, and writes there what is to be written. -/
def runIn (directory : FileTree) (logFormat? : Option String) (arguments : List String) :
    Finish × FileTree :=
  match Invocation.read arguments with
  | .error e => (e.finish, directory)
  | .ok i =>
    let finish := i.run logFormat? (directory.resolve i.input)
    match finish.file? with
    | none => (finish, directory)
    | some (path, text) =>
      match directory.write path text.toUTF8.toList with
      | .ok written => (finish.afterWriting path (.ok ()), written)
      | .error cause => (finish.afterWriting path (.error cause), directory)

end CommandLine

end ClassDiagram
