import Arrowlet.Program.Basic

/-!
# Writing a program as C

A program becomes the body of a C `main`, one line per statement:

* `DEF x <- e ;` becomes `double x = e;`
* `WRITE ( "f" , e ) ;` becomes `printf("f", e);`
* `READ (& x ) ;` becomes `scanf("%lf", &x);`
* `e ;` becomes `e;`

Expressions are written with a single space around every operator and with the parentheses of the
tree only. A tree that lacks a node, or holds a node or an operator that C text is not defined for,
is refused at its first fault.
-/

namespace Arrowlet

/-- What keeps a node from being written. -/
inductive NodeFault where
  /-- No expression where one should stand. -/
  | missingExpr
  /-- An expression of an unknown sort. -/
  | unknownExpr (sort : Bytes)
  /-- An operator that is not arithmetic. -/
  | badOperator (op : Kind)
  /-- No statement where one should stand. -/
  | missingStmt
  /-- A statement of an unknown sort. -/
  | unknownStmt (sort : Bytes)
  deriving DecidableEq, Repr

/-- The fault in words. -/
def NodeFault.message : NodeFault → Bytes
  | missingExpr => "missing expression"
  | unknownExpr sort => "unsupported expression " ++ sort
  | badOperator op => "unsupported binary operator " ++ op.name
  | missingStmt => "missing statement"
  | unknownStmt sort => "unsupported statement " ++ sort

/-- Why a program cannot be written as C. -/
inductive GenerateError where
  /-- There is no program. -/
  | noProgram
  /-- The statement with this number, counted from one, has a fault. -/
  | statement (number : Nat) (fault : NodeFault)
  deriving DecidableEq, Repr

/-- The error in words. -/
def GenerateError.message : GenerateError → Bytes
  | noProgram => "generate: nil program"
  | statement number fault =>
    "generate: statement " ++ Bytes.decimal number ++ ": " ++ fault.message

namespace CText

/-- What stands before the statements. -/
def header : Bytes := "#include <stdio.h>\n\nint main() \x7b\n"

/-- What stands after the statements. -/
def footer : Bytes := "return 0;\n\x7d\n"

/-- An expression as C. An operator is looked at before its operands, the left one first. -/
def expr : Expr → Except NodeFault Bytes
  | .number text => .ok text
  | .name text => .ok text
  | .binary op left right =>
    if op.isOperator then do
      let left ← expr left
      let right ← expr right
      return left ++ (" " ++ op.symbol ++ " " ++ right)
    else .error (.badOperator op)
  | .group inner => do
    let inner ← expr inner
    return "(" ++ inner ++ ")"
  | .missing => .error .missingExpr
  | .unknown sort _ => .error (.unknownExpr sort)

/-- A statement as a line of C, without its line feed. -/
def stmt : Stmt → Except NodeFault Bytes
  | .define name value => do
    let value ← expr value
    return "double " ++ name ++ " = " ++ value ++ ";"
  | .write format value => do
    let value ← expr value
    return "printf(" ++ format ++ ", " ++ value ++ ");"
  | .read name => .ok ("scanf(\"%lf\", &" ++ name ++ ");")
  | .eval value => do
    let value ← expr value
    return value ++ ";"
  | .missing => .error .missingStmt
  | .unknown sort _ => .error (.unknownStmt sort)

/-- The lines of the statements from the one with the given number on. -/
def stmts (number : Nat) : List Stmt → Except GenerateError Bytes
  | [] => .ok []
  | s :: rest => do
    let line ← (stmt s).mapError (.statement number)
    let lines ← stmts (number + 1) rest
    return line ++ "\n" ++ lines

end CText

/-- A whole program as C. -/
def Program.toC (program : Program) : Except GenerateError Bytes := do
  let lines ← CText.stmts 1 program
  return CText.header ++ lines ++ CText.footer

/-- The program as C, if there is one. -/
def generate : Option Program → Except GenerateError Bytes
  | none => .error .noProgram
  | some program => program.toC

end Arrowlet
