import Arrowlet.Program.Basic

/-!
# The debug text of a tree

Expressions are written with the operator in front and every node in parentheses of its own, so that
the shape of the tree can be read off the text. A program has one line per statement.
-/

namespace Arrowlet

/-- What stands for a node that is missing. -/
def missingText : Bytes := "%!s(<nil>)"

/-- The debug text of an expression. -/
def Expr.debugText : Expr → Bytes
  | number text => text
  | name text => text
  | binary op left right =>
    "(" ++ op.symbol ++ " " ++ (left.debugText ++ (" " ++ right.debugText ++ ")"))
  | group inner => "(group " ++ inner.debugText ++ ")"
  | missing => missingText
  | unknown _ text => text

/-- The debug text of a statement. -/
def Stmt.debugText : Stmt → Bytes
  | define name value => "Assignment(" ++ name ++ " = " ++ value.debugText ++ ")"
  | write format value => "Print(" ++ format ++ ", " ++ value.debugText ++ ")"
  | read name => "Scan(" ++ name ++ ")"
  | eval value => "ExprStmt(" ++ value.debugText ++ ")"
  | missing => missingText
  | unknown _ text => text

/-- The debug text of a program: the text of each statement on a line of its own. -/
def Program.debugText (program : Program) : Bytes :=
  program.flatMap fun stmt => stmt.debugText ++ "\n"

end Arrowlet
