import Arrowlet.Token.Basic

/-!
# Programs as trees

A program is a list of statements over arithmetic expressions. Parentheses are nodes of the tree, so
that a program keeps those of its text. A tree that was put together by hand may lack a node or hold
one of an unknown sort, and its operators may be any kind of token.
-/

namespace Arrowlet

/-- An arithmetic expression. -/
inductive Expr where
  /-- A number as it is spelled. -/
  | number (text : Bytes)
  /-- The value of a variable. -/
  | name (text : Bytes)
  /-- An operator between two operands. -/
  | binary (op : Kind) (left right : Expr)
  /-- An expression in parentheses. -/
  | group (inner : Expr)
  /-- No expression where one should stand. -/
  | missing
  /-- A node of an unknown sort, with the name of the sort and its debug text. -/
  | unknown (sort text : Bytes)
  deriving DecidableEq, Repr, Inhabited

/-- A statement. -/
inductive Stmt where
  /-- Declares a variable with a value. -/
  | define (name : Bytes) (value : Expr)
  /-- Prints a value under a format, which is a quoted text with its quotes. -/
  | write (format : Bytes) (value : Expr)
  /-- Reads a value into a variable. -/
  | read (name : Bytes)
  /-- Evaluates an expression for nothing. -/
  | eval (value : Expr)
  /-- No statement where one should stand. -/
  | missing
  /-- A node of an unknown sort, with the name of the sort and its debug text. -/
  | unknown (sort text : Bytes)
  deriving DecidableEq, Repr, Inhabited

/-- The statements of a program in their order. -/
abbrev Program := List Stmt

end Arrowlet
