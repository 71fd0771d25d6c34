import Arrowlet.Token.Basic

/-!
# Why a list of tokens is no program
-/

namespace Arrowlet

/-- The first token that does not fit, and the kinds that would have fitted there. -/
structure ParseError where
  /-- The kinds that would have fitted. -/
  expected : List Kind
  /-- The token that stands there instead. -/
  found : Token
  deriving DecidableEq, Repr

namespace ParseError

/-- Where the token stands that does not fit. -/
def pos (e : ParseError) : Position := e.found.pos

/-- Alternatives in words: `a`, `a or b`, `a, b or c`. -/
def alternatives : List Bytes → Bytes
  | [] => "nothing"
  | [choice] => choice
  | choice :: choices =>
    List.intercalate ", " (choice :: choices).dropLast ++ " or " ++
      (choice :: choices).getLastD []

/-- The token that was found in words. -/
def foundText (e : ParseError) : Bytes :=
  if e.found.kind = .eof then "end of input"
  else e.found.kind.name ++ " " ++ e.found.lexeme.quoted

/-- The position, what would have fitted and what was found. -/
def message (e : ParseError) : Bytes :=
  e.pos.text ++ ": expected " ++ alternatives (e.expected.map Kind.description) ++
    ", got " ++ e.foundText

end ParseError

end Arrowlet
