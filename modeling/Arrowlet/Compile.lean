import Arrowlet.CText
import Arrowlet.Program.Parser
import Arrowlet.Token.Lexer

/-!
# Compiling a text

`compile` reads the tokens of a text, reads these as a program and writes the program as C. The
first step that fails ends the work with its error.
-/

namespace Arrowlet

/-- Why a text cannot be compiled. -/
inductive CompileError where
  /-- It is no sequence of tokens. -/
  | lex (e : LexError)
  /-- Its tokens are no program. -/
  | parse (e : ParseError)
  /-- Its program cannot be written as C. -/
  | generate (e : GenerateError)
  deriving DecidableEq, Repr

namespace CompileError

/-- The error in words. -/
def message : CompileError → Bytes
  | lex e => e.message
  | parse e => e.message
  | generate e => e.message

/-- The place in the text that the error is about. -/
def position? : CompileError → Option Position
  | lex e => some e.pos
  | parse e => some e.pos
  | generate _ => none

/-- Whether the fault lies in the text that was to be compiled. -/
def isInSource : CompileError → Bool
  | lex _ | parse _ => true
  | generate _ => false

end CompileError

/-- The C text of a program text. -/
def compile (src : Bytes) : Except CompileError Bytes := do
  let tokens ← (lex src).mapError .lex
  let program ← (parse tokens).mapError .parse
  (generate (some program)).mapError .generate

end Arrowlet
