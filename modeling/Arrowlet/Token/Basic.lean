import Arrowlet.Position
import Arrowlet.Text.Quoted

/-!
# Tokens

A token is a lexeme with its kind and its position. The kinds are the end of the input, three kinds
whose lexemes vary (identifiers, numbers, strings), and the keywords and marks, each with a fixed
spelling, its symbol. A kind may also be an unknown code, which has a name and no symbol.
-/

namespace Arrowlet

/-- What a token is. -/
inductive Kind where
  /-- The end of the input. -/
  | eof
  /-- A name. -/
  | identifier
  /-- A decimal number, with or without a fraction. -/
  | number
  /-- A quoted text, its quotes included. -/
  | string
  /-- The keyword that declares a name. -/
  | define
  /-- The keyword that prints a value. -/
  | write
  /-- The keyword that reads a value. -/
  | read
  /-- `<-` -/
  | arrow
  /-- `(&` -/
  | scanAddr
  /-- `(` -/
  | lparen
  /-- `)` -/
  | rparen
  /-- `,` -/
  | comma
  /-- `;` -/
  | semicolon
  /-- `+` -/
  | plus
  /-- `-` -/
  | minus
  /-- `*` -/
  | star
  /-- `/` -/
  | slash
  /-- A code that stands for none of the kinds above. -/
  | unknown (code : Int)
  deriving DecidableEq, Repr

namespace Kind

/-- The kinds that have a code, each at its code. -/
def coded : List Kind :=
  [eof, identifier, number, string, define, write, read, arrow, scanAddr, lparen, rparen, comma,
    semicolon, plus, minus, star, slash]

/-- The kind with a given code. -/
def ofCode (code : Int) : Kind :=
  match code with
  | .ofNat n => coded.getD n (unknown code)
  | .negSucc _ => unknown code

/-- The name of a kind. -/
def name : Kind → Bytes
  | eof => "EOF"
  | identifier => "IDENTIFIER"
  | number => "NUMBER"
  | string => "STRING"
  | define => "DEF"
  | write => "WRITE"
  | read => "READ"
  | arrow => "ARROW"
  | scanAddr => "SCAN_ADDR"
  | lparen => "LPAREN"
  | rparen => "RPAREN"
  | comma => "COMMA"
  | semicolon => "SEMICOLON"
  | plus => "PLUS"
  | minus => "MINUS"
  | star => "STAR"
  | slash => "SLASH"
  | unknown code => "TokenType(" ++ Bytes.ofInt code ++ ")"

/-- The spelling that all tokens of a kind share; empty if their lexemes vary. -/
def symbol : Kind → Bytes
  | define => "DEF"
  | write => "WRITE"
  | read => "READ"
  | arrow => "<-"
  | scanAddr => "(&"
  | lparen => "("
  | rparen => ")"
  | comma => ","
  | semicolon => ";"
  | plus => "+"
  | minus => "-"
  | star => "*"
  | slash => "/"
  | eof | identifier | number | string | unknown _ => []

/-- A kind as a message names it: its symbol between quotes, or its name. -/
def description (kind : Kind) : Bytes :=
  if kind.symbol = [] then kind.name else "'" ++ kind.symbol ++ "'"

/-- The operators of a sum. -/
def isAdditive : Kind → Bool
  | plus | minus => true
  | _ => false

/-- The operators of a product. -/
def isMultiplicative : Kind → Bool
  | star | slash => true
  | _ => false

/-- The arithmetic operators. -/
def isOperator (kind : Kind) : Bool := kind.isAdditive || kind.isMultiplicative

end Kind

/-- A lexeme with its kind and the position of its first character. -/
structure Token where
  /-- What the token is. -/
  kind : Kind
  /-- The text of the token. -/
  lexeme : Bytes
  /-- Where the token begins. -/
  pos : Position
  deriving DecidableEq, Repr

namespace Token

/-- A token as one line of a listing: its kind, its quoted lexeme and its position in columns. -/
def text (t : Token) : Bytes :=
  t.kind.name.padRight 10 ++ " " ++ t.lexeme.quoted.padRight 14 ++ "  " ++ t.pos.text

end Token

end Arrowlet
