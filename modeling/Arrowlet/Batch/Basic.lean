import Arrowlet.Diagnostic
import Arrowlet.FileTree.Resolve

/-!
# Compiling a batch of files

A batch is a list of source paths. `Batch.compileAll` reads and compiles them in their order and
stops at the first that fails, so that it returns what was compiled before and the failure, if any.
-/

namespace Arrowlet

/-- A source that was compiled, with the path that its C text is to go to. -/
structure CompiledSource where
  /-- The path of the source. -/
  source : Bytes
  /-- The path of the output. -/
  output : Bytes
  /-- The C text. -/
  code : Bytes
  deriving DecidableEq, Repr

/-- Why a source cannot be compiled. -/
inductive SourceError where
  /-- The file cannot be read. -/
  | unreadable (path : Bytes) (e : FileError)
  /-- Its text cannot be compiled. -/
  | rejected (path src : Bytes) (e : CompileError)
  deriving DecidableEq, Repr

namespace SourceError

/-- The error in words, with a diagnostic if the fault lies in the text. -/
def message : SourceError → Bytes
  | unreadable path e => "failed to read input file " ++ path.quoted ++ ": " ++ e.message
  | rejected path src e => path ++ ":" ++ e.diagnostic src

/-- Whether the fault lies in the text of the source. -/
def isInSource : SourceError → Bool
  | unreadable _ _ => false
  | rejected _ _ e => e.isInSource

end SourceError

/-- A line of the log. -/
def logLine (message : Bytes) : Bytes := "mylangc: " ++ message.terminated

namespace Batch

/-- Reads and compiles one source. Its output goes to `output?`, by default beside the source. -/
def compileOne (t : FileTree) (output? : Option Bytes) (source : Bytes) :
    Except SourceError CompiledSource := do
  let src ← (t.read source).mapError (.unreadable source)
  let code ← (compile src).mapError (.rejected source src)
  return ⟨source, output?.getD (Path.defaultOutput source), code⟩

/-- The sources before the first that fails, compiled, and the failure. -/
def compileAll (t : FileTree) (output? : Option Bytes) :
    List Bytes → List CompiledSource × Option SourceError
  | [] => ([], none)
  | source :: sources =>
    match compileOne t output? source with
    | .error e => ([], some e)
    | .ok compiled =>
      let (others, failure) := compileAll t output? sources
      (compiled :: others, failure)

/-- The batch if all of it was compiled, and the failure otherwise. -/
def result : List CompiledSource × Option SourceError → Except SourceError (List CompiledSource)
  | (batch, none) => .ok batch
  | (_, some e) => .error e

end Batch

end Arrowlet
