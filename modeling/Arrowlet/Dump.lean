import Arrowlet.Diagnostic
import Arrowlet.ExitStatus
import Arrowlet.FileTree.Resolve
import Arrowlet.Program.DebugText

/-!
# The dump

The dump shows a program at every stage: its text, its tokens, its tree and its C text. It stops at
the first stage that fails; what was shown before stays.
-/

namespace Arrowlet

namespace Dump

/-- What a dump prints. -/
structure Output where
  /-- The exit status. -/
  status : ExitStatus
  /-- What was printed to standard output. -/
  stdout : Bytes
  /-- What was printed to standard error. -/
  stderr : Bytes
  deriving DecidableEq, Repr

/-- The program that is shown if no file is named. -/
def sample : Bytes :=
  "DEF x <- 10 ;\nDEF y <- (x + 2) * 3 ;\nWRITE ( \"%f\\n\" , y ) ;\n"

/-- The text of a program as a section. -/
def sourceSection (src : Bytes) : Bytes := "Source:\n" ++ src ++ "\n"

/-- A line of a section that lists things. -/
def item (text : Bytes) : Bytes := "  " ++ text ++ "\n"

/-- The tokens of a program as a section, with their number. -/
def tokenSection (tokens : List Token) : Bytes :=
  "Tokens (" ++ Bytes.decimal tokens.length ++ ")\n" ++
    tokens.flatMap (fun t => item t.text) ++ "\n"

/-- The tree of a program as a section. -/
def treeSection (program : Program) : Bytes :=
  "AST\n" ++ program.flatMap (fun stmt => item stmt.debugText) ++ "\n"

/-- The C text of a program as a section. -/
def codeSection (code : Bytes) : Bytes := "Generated C\n" ++ code

/-- What is printed to standard error when a stage fails. -/
def complaint (message : Bytes) : Bytes := "mlcdump: " ++ message.terminated

/-- Shows a program at every stage. -/
def ofText (src : Bytes) : Output :=
  let shown := sourceSection src
  match lex src with
  | .error e =>
    ⟨.failure, shown, complaint ("lex error:\n" ++ (CompileError.lex e).diagnostic src)⟩
  | .ok tokens =>
    let shown := shown ++ tokenSection tokens
    match parse tokens with
    | .error e =>
      ⟨.failure, shown, complaint ("parse error:\n" ++ (CompileError.parse e).diagnostic src)⟩
    | .ok program =>
      let shown := shown ++ treeSection program
      match generate (some program) with
      | .error e => ⟨.failure, shown, complaint ("codegen error: " ++ e.message)⟩
      | .ok code => ⟨.success, shown ++ codeSection code, []⟩

/-- Shows the program in the file that the first argument names, or the sample. -/
def run (args : List Bytes) (t : FileTree) : Output :=
  match args with
  | [] => ofText sample
  | path :: _ =>
    match t.read path with
    | .error e => ⟨.failure, [], complaint ("read error: " ++ e.message)⟩
    | .ok src => ofText src

end Dump

end Arrowlet
