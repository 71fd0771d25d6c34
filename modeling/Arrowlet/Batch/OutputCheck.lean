import Arrowlet.Batch.Basic

/-!
# Outputs that get in each other's way

Before a batch is written, its outputs are compared by their locations: no output may replace a
source of the batch, and no two outputs may be the same file.
-/

namespace Arrowlet

/-- Why a batch must not be written. -/
inductive OutputConflict where
  /-- The location of a source cannot be told. -/
  | unresolvedSource (path : Bytes) (e : FileError)
  /-- The location of an output cannot be told. -/
  | unresolvedOutput (path : Bytes) (e : FileError)
  /-- An output would replace a source. -/
  | overwrites (output source : Bytes)
  /-- Two sources have the same output. -/
  | shared (first second output : Bytes)
  deriving DecidableEq, Repr

/-- The conflict in words. -/
def OutputConflict.message : OutputConflict → Bytes
  | unresolvedSource path e => "resolving source path " ++ path.quoted ++ ": " ++ e.message
  | unresolvedOutput path e => "resolving output path " ++ path.quoted ++ ": " ++ e.message
  | overwrites output source =>
    "output " ++ output ++ " for " ++ source ++ " would overwrite a source file"
  | shared first second output => first ++ " and " ++ second ++ " both translate to " ++ output

namespace Batch

/-- The locations of the sources of a batch. -/
def sourceLocations (t : FileTree) (batch : List CompiledSource) :
    Except OutputConflict (List Location) :=
  batch.mapM fun c => (t.locate c.source).mapError (.unresolvedSource c.source)

/-- Compares the outputs of a batch with the sources and with the earlier outputs `seen`, which are
given with their sources. -/
def checkFrom (t : FileTree) (sources : List Location) :
    (seen : List (Location × Bytes)) → List CompiledSource → Except OutputConflict Unit
  | _, [] => .ok ()
  | seen, c :: rest =>
    match t.locate c.output with
    | .error e => .error (.unresolvedOutput c.output e)
    | .ok loc =>
      if loc ∈ sources then .error (.overwrites c.output c.source)
      else
        match seen.lookup loc with
        | some first => .error (.shared first c.source c.output)
        | none => checkFrom t sources ((loc, c.source) :: seen) rest

/-- Whether the outputs of a batch get in nobody's way; the first conflict otherwise. -/
def check (t : FileTree) (batch : List CompiledSource) : Except OutputConflict Unit := do
  let sources ← sourceLocations t batch
  checkFrom t sources [] batch

end Batch

end Arrowlet
