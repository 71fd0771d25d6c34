import Arrowlet.Text.Bytes

/-!
# Positions in a program text

A position is a line and a column, both counted from one. `Position.after` moves a position over
the bytes that follow it: a line feed starts a line, any other character takes one column. A
character is counted at its first byte, so the bytes that continue it move nothing.
-/

namespace Arrowlet

/-- A place in a program text. The numbers of a position that was not found by reading a text are
arbitrary integers. -/
structure Position where
  /-- The line, from one. -/
  line : Int
  /-- The column in characters, from one. -/
  column : Int
  deriving DecidableEq, Repr

namespace Position

/-- The beginning of a text. -/
def start : Position := ⟨1, 1⟩

/-- Whether a byte of an encoded character follows the first one. -/
def isContinuation (b : UInt8) : Bool := 0x80 ≤ b && b ≤ 0xbf

/-- The position after one byte. -/
def next (pos : Position) (b : UInt8) : Position :=
  if b = Bytes.lineFeed then ⟨pos.line + 1, 1⟩
  else if isContinuation b then pos
  else ⟨pos.line, pos.column + 1⟩

/-- The position after all bytes of a text. -/
def after (pos : Position) (text : Bytes) : Position := text.foldl next pos

/-- A position as `line:column`. -/
def text (pos : Position) : Bytes :=
  Bytes.ofInt pos.line ++ ":" ++ Bytes.ofInt pos.column

theorem after_append (pos : Position) (s t : Bytes) :
    pos.after (s ++ t) = (pos.after s).after t := List.foldl_append

end Position

end Arrowlet
