import ClassDiagram.CommandLine.Run

/-!
# The command-line program

Carries out what the command line asks for: loads the input, runs, prints, and writes the output
file.
-/

namespace ClassDiagram

open CommandLine

/-- The cause of an error of the file system. -/
def FileError.ofSystem : IO.Error → FileError
  | .noFileOrDirectory .. => .notFound
  | e => .other (toString e)

/-- Loads an entry of a directory. -/
partial def loadEntry (entry : IO.FS.DirEntry) : IO FileTree := do
  if ← entry.path.isDir then
    let entries ← entry.path.readDir
    return .directory (← entries.toList.mapM fun e => return (e.fileName, ← loadEntry e))
  else
    try return .file (← IO.FS.readBinFile entry.path).toList
    catch e => return .unreadable (FileError.ofSystem e)

/-- Loads what there is at a path. -/
def loadTree (path : String) : IO (Except FileError FileTree) := do
  try
    let place ← IO.FS.realPath path
    if ← place.isDir then
      let entries ← place.readDir
      return .ok (.directory (← entries.toList.mapM fun e => return (e.fileName, ← loadEntry e)))
    else return .ok (.file (← IO.FS.readBinFile place).toList)
  catch e => return .error (FileError.ofSystem e)

/-- Writes a text to a file. -/
def writeText (path text : String) : IO (Except FileError Unit) := do
  try
    IO.FS.writeFile path text
    return .ok ()
  catch e => return .error (FileError.ofSystem e)

/-- Prints what a run leaves behind. -/
def report (finish : Finish) : IO UInt32 := do
  for message in finish.messages do
    IO.eprintln message
  IO.print finish.output
  return finish.exitCode.toUInt32

end ClassDiagram

open ClassDiagram CommandLine in
/-- Runs the program. -/
def main (arguments : List String) : IO UInt32 := do
  match Invocation.read arguments with
  | .error e => report e.finish
  | .ok invocation =>
    let logFormat? ← IO.getEnv "CLASSWEAVE_LOG_FORMAT"
    let finish := invocation.run logFormat? (← loadTree invocation.input)
    match finish.file? with
    | none => report finish
    | some (path, text) => report (finish.afterWriting path (← writeText path text))
