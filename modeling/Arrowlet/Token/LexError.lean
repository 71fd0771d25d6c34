import Arrowlet.Position
import Arrowlet.Text.Quoted

/-!
# Why a text is no sequence of tokens
-/

namespace Arrowlet

/-- What is wrong at the place where reading tokens stops. -/
inductive LexFault where
  /-- A character that begins no token. -/
  | unexpected
  /-- A quoted text that is still open at the end of its line. -/
  | unterminated
  /-- A byte that belongs to no encoded character. -/
  | encoding (b : UInt8)
  /-- A fault given in words. -/
  | stated (message : Bytes)
  deriving DecidableEq, Repr

/-- The first fault of a text. -/
structure LexError where
  /-- The code point of the offending character, or the value of a byte that belongs to none. -/
  char : Int
  /-- The position of the offending character. -/
  pos : Position
  /-- What is wrong there. -/
  fault : LexFault
  deriving DecidableEq, Repr

namespace LexError

/-- The fault in words. -/
def reason (e : LexError) : Bytes :=
  match e.fault with
  | .unexpected => "unexpected character " ++ quotedChar (charOfCode e.char)
  | .unterminated => "unterminated string literal"
  | .encoding b => "invalid UTF-8 byte 0x" ++ Bytes.hexadecimal b.toNat
  | .stated message => message

/-- The position and the fault in words. -/
def message (e : LexError) : Bytes := e.pos.text ++ ": " ++ e.reason

end LexError

end Arrowlet
