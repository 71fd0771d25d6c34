import Arrowlet.Batch.OutputCheck
import Arrowlet.Batch.OutputWrite
import Arrowlet.ExitStatus
import Arrowlet.Options.Basic

/-!
# The command

`Command.run` is the whole command as a function: arguments and a file tree go in, and an exit
status, two texts and a file tree come out. The sources of a batch are all compiled before anything
is printed or written; outputs are printed in their order, or checked and then written.

Here the sources are compiled one after the other, as one worker does it. What comes after that is
`Command.conclude`, which is told what was compiled and what the log says about it, so that it
serves several workers as well.
-/

namespace Arrowlet

/-- What a command finds on the machine it runs on, apart from the files. -/
structure Machine where
  /-- The number of processors. -/
  processors : Nat
  /-- Whether standard output takes one more text after those it has taken. -/
  accepts : (taken : List Bytes) → Bytes → Bool

/-- What a command leaves behind. -/
structure Outcome where
  /-- The exit status. -/
  status : ExitStatus
  /-- What was printed to standard output. -/
  stdout : Bytes
  /-- What was printed to standard error. -/
  stderr : Bytes
  /-- The file tree afterwards. -/
  tree : FileTree

namespace Command

/-- How the command is to be called. -/
def usage (processors : Nat) : Bytes :=
  "usage: mylangc [flags] <source> [<source>...]\n" ++
  "  -jobs int\n" ++
  "    \tmaximum number of files translated concurrently (default " ++
    Bytes.decimal processors ++ ")\n" ++
  "  -out string\n" ++
  "    \toutput C file path (default: input with .c extension)\n" ++
  "  -stdout\n" ++
  "    \twrite generated C to standard output\n" ++
  "  -v\tlog progress to stderr\n"

/-- Options that cannot be followed together. -/
inductive UsageError where
  /-- There is no source. -/
  | noSources
  /-- The output is to be both written and printed. -/
  | outputAndStdout
  /-- Several sources are to go to one output. -/
  | outputForMany
  /-- No file may be worked on. -/
  | tooFewJobs (jobs : Int)
  deriving DecidableEq, Repr

/-- The error in words. Without a source, the usage follows. -/
def UsageError.message (processors : Nat) : UsageError → Bytes
  | noSources => "nothing to do: provide at least one source file\n" ++ usage processors
  | outputAndStdout => "use either -out or -stdout, not both\n"
  | outputForMany => "-out requires exactly one source file\n"
  | tooFewJobs jobs => "-jobs must be at least 1, got " ++ Bytes.ofInt jobs ++ "\n"

/-- What is wrong with the options for a list of sources. -/
def usageError? (o : Options) (sources : List Bytes) : Option UsageError :=
  if sources = [] then some .noSources
  else if o.output ≠ [] && o.toStdout then some .outputAndStdout
  else if o.output ≠ [] && sources.length > 1 then some .outputForMany
  else if o.jobs < 1 then some (.tooFewJobs o.jobs)
  else none

/-- Prints texts until one is not taken: the texts that were taken, and whether all were. -/
def printAll (m : Machine) : (taken : List Bytes) → List Bytes → List Bytes × Bool
  | taken, [] => (taken, true)
  | taken, text :: rest =>
    if m.accepts taken text then printAll m (taken ++ [text]) rest else (taken, false)

/-- Prints the C texts of a batch. -/
def print (m : Machine) (batch : List CompiledSource) (log : Bytes) (t : FileTree) : Outcome :=
  match printAll m [] (batch.map CompiledSource.code) with
  | (taken, true) => ⟨.success, taken.flatten, log, t⟩
  | (taken, false) =>
    ⟨.failure, taken.flatten, log ++ "failed to write output: stdout closed\n", t⟩

/-- Checks and writes the C texts of a batch. -/
def write (o : Options) (batch : List CompiledSource) (log : Bytes) (t : FileTree) : Outcome :=
  match Batch.check t batch with
  | .error conflict => ⟨.failure, [], log ++ conflict.message ++ "\n", t⟩
  | .ok () =>
    let result := Batch.write t batch
    let log := log ++ if o.verbose then Batch.writtenLog result.written else []
    match result.failure with
    | none => ⟨.success, [], log, result.tree⟩
    | some e => ⟨.failure, [], log ++ e.message ++ "\n", result.tree⟩

/-- What the log says about a source that cannot be compiled. -/
def failureMessage (e : SourceError) : Bytes :=
  if e.isInSource then "translation failed, no files written"
  else "i/o failure, no files written"

/-- The path that all outputs go to, if the options name one. -/
def output? (o : Options) : Option Bytes := if o.output = [] then none else some o.output

/-- The lines of the log, if there is one. -/
def log (o : Options) (messages : List Bytes) : Bytes :=
  if o.verbose then messages.flatMap logLine else []

/-- Prints or writes the outputs, if all sources were compiled. The log has named the sources
`translated` by then. -/
def conclude (m : Machine) (o : Options) (translated : List Bytes)
    (result : Except SourceError (List CompiledSource)) (t : FileTree) : Outcome :=
  let compiledLog := log o (translated.map ("translated " ++ ·))
  match result with
  | .error e => ⟨.failure, [], compiledLog ++ e.message ++ "\n" ++ log o [failureMessage e], t⟩
  | .ok batch =>
    if o.toStdout then print m batch compiledLog t else write o batch compiledLog t

/-- Compiles the sources one after the other, and prints or writes the outputs. -/
def execute (m : Machine) (o : Options) (sources : List Bytes) (t : FileTree) : Outcome :=
  let compiled := Batch.compileAll t (output? o) sources
  conclude m o (compiled.1.map CompiledSource.source) (Batch.result compiled) t

/-- Runs the command. -/
def run (m : Machine) (args : List Bytes) (t : FileTree) : Outcome :=
  match (Options.initial m.processors).parse args with
  | .error e => ⟨.misuse, [], e.message ++ usage m.processors, t⟩
  | .ok (o, sources) =>
    match usageError? o sources with
    | some e => ⟨.misuse, [], e.message m.processors, t⟩
    | none => execute m o sources t

end Command

end Arrowlet
