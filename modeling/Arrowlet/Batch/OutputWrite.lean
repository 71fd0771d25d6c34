import Arrowlet.Batch.Basic
import Arrowlet.FileTree.Staging

/-!
# Writing the outputs of a batch

All outputs are staged before the first one is put in place. If one cannot be staged, none is
written. If one cannot be put in place, those before it are there to stay and those after it are
discarded.
-/

namespace Arrowlet

/-- An output that cannot be written. -/
structure WriteError where
  /-- The path of the output. -/
  output : Bytes
  /-- What went wrong. -/
  cause : FileError
  deriving DecidableEq, Repr

/-- The error in words. -/
def WriteError.message (e : WriteError) : Bytes :=
  "failed to write C file " ++ e.output.quoted ++ ": " ++ e.cause.message

/-- What has come of writing a batch. -/
structure WriteResult where
  /-- The outputs that are in place, in their order. -/
  written : List CompiledSource
  /-- The output that could not be written. -/
  failure : Option WriteError
  /-- The tree afterwards. -/
  tree : FileTree

namespace Batch

/-- The permission bits of an output. -/
def outputMode : Nat := 0o644

/-- Stages all outputs of a batch; if one fails, those before it are discarded. -/
def stageAll (t : FileTree) :
    List CompiledSource → Except WriteError (List (CompiledSource × Staged)) × FileTree
  | [] => (.ok [], t)
  | c :: rest =>
    match t.stage c.output c.code outputMode with
    | (.error e, t) => (.error ⟨c.output, e⟩, t)
    | (.ok s, t) =>
      match stageAll t rest with
      | (.error e, t) => (.error e, t.discard s)
      | (.ok others, t) => (.ok ((c, s) :: others), t)

/-- Puts staged outputs in place; if one fails, those after it are discarded. -/
def commitAll (t : FileTree) : List (CompiledSource × Staged) → WriteResult
  | [] => ⟨[], none, t⟩
  | (c, s) :: rest =>
    match t.commit s with
    | (.error e, t) => ⟨[], some ⟨c.output, e⟩, rest.foldl (fun t r => t.discard r.2) t⟩
    | (.ok (), t) =>
      let result := commitAll t rest
      { result with written := c :: result.written }

/-- Writes the outputs of a batch. -/
def write (t : FileTree) (batch : List CompiledSource) : WriteResult :=
  match stageAll t batch with
  | (.error e, t) => ⟨[], some e, t⟩
  | (.ok staged, t) => commitAll t staged

/-- What the log says about an output that is in place. -/
def writtenMessage (c : CompiledSource) : Bytes :=
  c.source ++ " -> " ++ c.output ++ " (" ++ Bytes.decimal c.code.length ++ " bytes)"

/-- The log of writing a batch: a line for every output that is in place. -/
def writtenLog (written : List CompiledSource) : Bytes :=
  written.flatMap fun c => logLine (writtenMessage c)

end Batch

end Arrowlet
