import Arrowlet.Program.Basic
import Arrowlet.Program.ParseError

/-!
# Reading a program from tokens

`parse` reads a list of tokens as a program by the grammar

    program    = statement+ end
    statement  = "DEF" IDENTIFIER "<-" sum ";"
               | "WRITE" "(" STRING "," sum ")" ";"
               | "READ" "(&" IDENTIFIER ")" ";"
               | sum ";"
    sum        = product (("+" | "-") product)*
    product    = operand (("*" | "/") operand)*
    operand    = NUMBER | IDENTIFIER | "(" sum ")"

where chains of operators lean to the left. The end is the first token of kind `Kind.eof`, or the
end of the list; what follows it is not read. Reading stops at the first token that does not fit.

Every reader returns what it has read and the tokens after it, with the proof that these are fewer
(`Reading`), so the descent through parentheses and the chains of operators ends: a step down in the
grammar keeps the tokens, and everything else leaves fewer.
-/

namespace Arrowlet

namespace Parser

/-- The kinds that begin a statement. -/
def statementOpeners : List Kind := [.define, .write, .read, .number, .identifier, .lparen]

/-- The kinds that begin an operand. -/
def operandOpeners : List Kind := [.number, .identifier, .lparen]

/-- A place where the next token does not fit: the kinds that would have fitted, and the tokens from
there on. -/
structure Mismatch where
  /-- The kinds that would have fitted. -/
  expected : List Kind
  /-- The tokens from the place on; the first one does not fit. -/
  rest : List Token
  deriving DecidableEq, Repr

/-- What a reader has read, and fewer than `bound` tokens after it. -/
structure Reading (α : Type) (bound : Nat) where
  /-- What was read. -/
  value : α
  /-- The tokens after it. -/
  rest : List Token
  /-- There are fewer of them than before. -/
  rest_lt : rest.length < bound

/-- Reads one token of a given kind. -/
def expect (kind : Kind) : (ts : List Token) → Except Mismatch (Reading Token ts.length)
  | [] => .error ⟨[kind], []⟩
  | t :: rest =>
    if t.kind = kind then .ok ⟨t, rest, by simp⟩ else .error ⟨[kind], t :: rest⟩

/-! ## Expressions -/

mutual

/-- Reads an operand: a number, a name, or a sum in parentheses. -/
def operand (ts : List Token) : Except Mismatch (Reading Expr ts.length) :=
  match ts with
  | [] => .error ⟨operandOpeners, []⟩
  | t :: rest =>
    match t.kind with
    | .number => .ok ⟨.number t.lexeme, rest, by simp⟩
    | .identifier => .ok ⟨.name t.lexeme, rest, by simp⟩
    | .lparen => do
      let inner ← sum rest
      let close ← expect .rparen inner.rest
      return ⟨.group inner.value, close.rest, by
        have := inner.rest_lt
        have := close.rest_lt
        simp only [List.length_cons]
        omega⟩
    | _ => .error ⟨operandOpeners, t :: rest⟩
termination_by 3 * ts.length
decreasing_by simp only [List.length_cons]; omega

/-- Goes on with a product whose beginning is `left`. -/
def productTail (left : Expr) (ts : List Token) :
    Except Mismatch (Reading Expr (ts.length + 1)) :=
  match ts with
  | [] => .ok ⟨left, [], by simp⟩
  | t :: rest =>
    if t.kind.isMultiplicative then do
      let right ← operand rest
      let tail ← productTail (.binary t.kind left right.value) right.rest
      return ⟨tail.value, tail.rest, by
        have := right.rest_lt
        have := tail.rest_lt
        simp only [List.length_cons]
        omega⟩
    else .ok ⟨left, t :: rest, by simp⟩
termination_by 3 * ts.length
decreasing_by
  · simp only [List.length_cons]
    omega
  · have := right.rest_lt
    simp only [List.length_cons]
    omega

/-- Reads a product: operands with multiplicative operators between them. -/
def product (ts : List Token) : Except Mismatch (Reading Expr ts.length) := do
  let first ← operand ts
  let tail ← productTail first.value first.rest
  return ⟨tail.value, tail.rest, by
    have := first.rest_lt
    have := tail.rest_lt
    omega⟩
termination_by 3 * ts.length + 1
decreasing_by
  · omega
  · have := first.rest_lt
    omega

/-- Goes on with a sum whose beginning is `left`. -/
def sumTail (left : Expr) (ts : List Token) : Except Mismatch (Reading Expr (ts.length + 1)) :=
  match ts with
  | [] => .ok ⟨left, [], by simp⟩
  | t :: rest =>
    if t.kind.isAdditive then do
      let right ← product rest
      let tail ← sumTail (.binary t.kind left right.value) right.rest
      return ⟨tail.value, tail.rest, by
        have := right.rest_lt
        have := tail.rest_lt
        simp only [List.length_cons]
        omega⟩
    else .ok ⟨left, t :: rest, by simp⟩
termination_by 3 * ts.length
decreasing_by
  · simp only [List.length_cons]
    omega
  · have := right.rest_lt
    simp only [List.length_cons]
    omega

/-- Reads a sum: products with additive operators between them. -/
def sum (ts : List Token) : Except Mismatch (Reading Expr ts.length) := do
  let first ← product ts
  let tail ← sumTail first.value first.rest
  return ⟨tail.value, tail.rest, by
    have := first.rest_lt
    have := tail.rest_lt
    omega⟩
termination_by 3 * ts.length + 2
decreasing_by
  · omega
  · have := first.rest_lt
    omega

end

/-! ## Statements -/

/-- Reads a declaration after its keyword. -/
def definition (ts : List Token) : Except Mismatch (Reading Stmt ts.length) := do
  let name ← expect .identifier ts
  let arrow ← expect .arrow name.rest
  let value ← sum arrow.rest
  let stop ← expect .semicolon value.rest
  return ⟨.define name.value.lexeme value.value, stop.rest, by
    have := name.rest_lt
    have := arrow.rest_lt
    have := value.rest_lt
    have := stop.rest_lt
    omega⟩

/-- Reads an output statement after its keyword. -/
def output (ts : List Token) : Except Mismatch (Reading Stmt ts.length) := do
  let opening ← expect .lparen ts
  let format ← expect .string opening.rest
  let comma ← expect .comma format.rest
  let value ← sum comma.rest
  let closing ← expect .rparen value.rest
  let stop ← expect .semicolon closing.rest
  return ⟨.write format.value.lexeme value.value, stop.rest, by
    have := opening.rest_lt
    have := format.rest_lt
    have := comma.rest_lt
    have := value.rest_lt
    have := closing.rest_lt
    have := stop.rest_lt
    omega⟩

/-- Reads an input statement after its keyword. -/
def input (ts : List Token) : Except Mismatch (Reading Stmt ts.length) := do
  let opening ← expect .scanAddr ts
  let name ← expect .identifier opening.rest
  let closing ← expect .rparen name.rest
  let stop ← expect .semicolon closing.rest
  return ⟨.read name.value.lexeme, stop.rest, by
    have := opening.rest_lt
    have := name.rest_lt
    have := closing.rest_lt
    have := stop.rest_lt
    omega⟩

/-- Reads an expression that stands as a statement. -/
def evaluation (ts : List Token) : Except Mismatch (Reading Stmt ts.length) := do
  let value ← sum ts
  let stop ← expect .semicolon value.rest
  return ⟨.eval value.value, stop.rest, by
    have := value.rest_lt
    have := stop.rest_lt
    omega⟩

/-- Reads one statement. -/
def statement (ts : List Token) : Except Mismatch (Reading Stmt ts.length) :=
  match ts with
  | [] => .error ⟨statementOpeners, []⟩
  | t :: rest =>
    match t.kind with
    | .define => afterKeyword (definition rest)
    | .write => afterKeyword (output rest)
    | .read => afterKeyword (input rest)
    | .number | .identifier | .lparen => evaluation (t :: rest)
    | _ => .error ⟨statementOpeners, t :: rest⟩
where
  /-- What is left after the keyword and the statement is less than with the keyword. -/
  afterKeyword {bound : Nat} (reading : Except Mismatch (Reading Stmt bound)) :
      Except Mismatch (Reading Stmt (bound + 1)) := do
    let stmt ← reading
    return ⟨stmt.value, stmt.rest, Nat.lt_succ_of_lt stmt.rest_lt⟩

/-- Whether the end of the input comes next. -/
def atEnd : List Token → Bool
  | [] => true
  | t :: _ => t.kind = .eof

/-- Reads statements up to the end of the input, at least one. -/
def statements (ts : List Token) : Except Mismatch (List Stmt) := do
  let first ← statement ts
  if atEnd first.rest then return [first.value]
  else
    let others ← statements first.rest
    return first.value :: others
termination_by ts.length
decreasing_by exact first.rest_lt

/-- The end of the input after a list of tokens: it stands where the last token does. -/
def endToken (ts : List Token) : Token :=
  ⟨.eof, [], (ts.getLast?.map Token.pos).getD .start⟩

end Parser

/-- Reads a list of tokens as a program. -/
def parse (ts : List Token) : Except ParseError Program :=
  match Parser.statements ts with
  | .ok program => .ok program
  | .error m => .error ⟨m.expected, m.rest.headD (Parser.endToken ts)⟩

end Arrowlet
