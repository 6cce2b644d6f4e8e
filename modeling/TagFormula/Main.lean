import TagFormula.Command.Arguments

/-!
# The command line

Reads the files that a command needs, runs it, and prints its report.
-/

namespace TagFormula.CommandLine

/-- The files of a project with the file at a location, if it can be read. -/
def readInto (fs : Files) (l : Location) : IO Files := do
  try
    let data ← IO.FS.readBinFile (String.ofList (l.text fs.root))
    return (fs.apply (Files.write l.names (.bytes data.toList))).2
  catch _ => return fs

/-- The files of a project that commands need: the configuration, the catalog and
the log. -/
def readProject (project : Text) : IO Files := do
  let fs ← readInto (.empty project) (.ofPath Config.path)
  let fs ← readInto fs (.ofPath EventLog.globalFile)
  match (Config.load fs).bind Config.suggestionsPlace? with
  | .ok (some l) => if l.anchor = .project then readInto fs l else return fs
  | _ => return fs

/-- Makes the folders that a command made. -/
def makeFolders (fs : Files) : IO Unit := do
  for (p, e) in fs.entries do
    match e with
    | .folder => IO.FS.createDirAll (String.ofList ((Location.ofPath p).text fs.root))
    | .file _ => pure ()

/-- Runs a command line; gives the exit code. -/
def run (words : List String) : IO UInt32 := do
  match Invocation.ofCommandLine words with
  | .error message =>
    IO.eprintln message
    return 2
  | .ok call =>
    let (result, fs) := Command.run (← readProject call.project) call.command
    makeFolders fs
    match result with
    | .error e =>
      IO.eprintln e.message
      return 1
    | .ok report =>
      IO.print (String.ofList report.out)
      IO.eprint (String.ofList report.err)
      return report.exitCode.toUInt32

end TagFormula.CommandLine

/-- Runs the command line that the program is called with. -/
def main (words : List String) : IO UInt32 :=
  TagFormula.CommandLine.run words
