import Arrowlet.Command
import Arrowlet.Dump

/-!
# The program

The program loads the part of the file system that its arguments can reach into a `FileTree`, runs
the command or the dump on it, prints what these print and stores the files that have changed.
Called by the name of the dump it is the dump, by any other name the command.
-/

namespace Arrowlet.Shell

/-- The text as a string, for paths and names. -/
def toString (text : Bytes) : String := (String.fromUTF8? ⟨text.toArray⟩).getD ""

/-- Loads what stands on the way `above ++ way`, as far as it goes through directories. -/
def loadWay (t : FileTree) (above : Location) : (way : List Bytes) → IO FileTree
  | [] => return t
  | name :: way => do
    let loc := above ++ [name]
    let path := (← IO.currentDir) / toString loc.text
    if ← path.isDir then loadWay (t.put loc .directory) loc way
    else if ← path.pathExists then
      let data ← IO.FS.readBinFile path
      return t.put loc (.file data.toList Batch.outputMode)
    else return t

/-- Loads what a path can lead through, element by element. -/
def loadPath (t : FileTree) (path : Bytes) : IO FileTree := do
  let mut t := t
  let mut loc : Location := if Path.isAbsolute path then [] else t.cwd
  for element in path.splitOn Bytes.slash do
    loc := loc.enter element
    t ← loadWay t [] loc
  return t

/-- Loads the working directory and what every path can lead through. -/
def load (paths : List Bytes) : IO FileTree := do
  let cwd := Location.follow [] (Bytes.ofString (← IO.currentDir).toString)
  let mut t ← loadWay { FileTree.empty with cwd := cwd } [] cwd
  for path in paths do
    t ← loadPath t path
  return t

/-- Stores a file: first beside its place, then in its place. -/
def storeFile (loc : Location) (data : Bytes) : IO Unit := do
  let temp := toString (loc.directory ++ [FileTree.tempName loc.base (← IO.monoNanosNow)]).text
  IO.FS.writeBinFile temp ⟨data.toArray⟩
  IO.setAccessRights temp
    { user := { read := true, write := true }, group := { read := true },
      other := { read := true } }
  IO.FS.rename temp (toString loc.text)

/-- Stores the files of a tree that another tree does not have. -/
def store (before after : FileTree) : IO Unit :=
  for (loc, node) in after.entries do
    match node with
    | .file data _ =>
      if before.lookup loc ≠ some node then storeFile loc data
    | .directory => pure ()

/-- The number of processors, one if the system does not say. -/
def processorCount : IO Nat := do
  let path := (← IO.currentDir) / "/proc/cpuinfo"
  if ← path.pathExists then
    let lines ← IO.FS.lines path
    return max 1 (lines.filter (·.startsWith "processor")).size
  else return 1

/-- Prints what a run has left for standard output and standard error. -/
def printResult (stdout stderr : Bytes) : IO Unit := do
  (← IO.getStdout).write ⟨stdout.toArray⟩
  (← IO.getStderr).write ⟨stderr.toArray⟩

/-- The paths that the command reads or writes for its arguments. -/
def commandPaths (args : List Bytes) : List Bytes :=
  match (Options.initial 1).parse args with
  | .ok (o, sources) => o.output :: sources ++ sources.map Path.defaultOutput
  | .error _ => []

/-- Runs the command. -/
def command (args : List Bytes) : IO UInt32 := do
  let machine : Machine := ⟨← processorCount, fun _ _ => true⟩
  let before ← load (commandPaths args)
  let outcome := Command.run machine args before
  store before outcome.tree
  printResult outcome.stdout outcome.stderr
  return outcome.status.code.toUInt32

/-- Runs the dump. -/
def dump (args : List Bytes) : IO UInt32 := do
  let output := Dump.run args (← load (args.take 1))
  printResult output.stdout output.stderr
  return output.status.code.toUInt32

end Arrowlet.Shell

/-- Runs the dump or the command, as the program is called. -/
def main (args : List String) : IO UInt32 := do
  let args := args.map Arrowlet.Bytes.ofString
  if (← IO.appPath).fileStem = some "mlcdump" then Arrowlet.Shell.dump args
  else Arrowlet.Shell.command args
