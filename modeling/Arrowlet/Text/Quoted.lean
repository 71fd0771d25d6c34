import Arrowlet.Text.Printable
import Arrowlet.Text.Utf8

/-!
# Quoted texts

A text or a character is shown in messages between quotes. What is printable stands for itself;
the quote in use, the backslash and everything else is escaped:

* `\a \b \f \n \r \t \v` and `\\` for the characters that have a short escape;
* `\x1b` for the other controls of ASCII, `\u200b` below `0x10000`, `\U000e0001` above;
* `\xff` for a byte that belongs to no character.
-/

namespace Arrowlet

namespace Quoted

/-- The letter of a character's short escape. -/
def shortEscape? (c : Char) : Option Char :=
  match c.toNat with
  | 0x07 => some 'a'
  | 0x08 => some 'b'
  | 0x0c => some 'f'
  | 0x0a => some 'n'
  | 0x0d => some 'r'
  | 0x09 => some 't'
  | 0x0b => some 'v'
  | _ => none

/-- The escape of a character that is not printable and has no short escape. -/
def numericEscape (c : Char) : Bytes :=
  let n := c.toNat
  if n < 0x20 || n = 0x7f then "\\x" ++ Bytes.zeroPad 2 (Bytes.hexadecimal n)
  else if n < 0x10000 then "\\u" ++ Bytes.zeroPad 4 (Bytes.hexadecimal n)
  else "\\U" ++ Bytes.zeroPad 8 (Bytes.hexadecimal n)

/-- A character as it stands between two `quote` marks. -/
def char (quote c : Char) : Bytes :=
  if c = quote || c = '\\' then "\\" ++ String.utf8EncodeChar c
  else if isPrintable c then String.utf8EncodeChar c
  else
    match shortEscape? c with
    | some letter => "\\" ++ String.utf8EncodeChar letter
    | none => numericEscape c

/-- A unit of a text as it stands between two `quote` marks. -/
def unit (quote : Char) : TextUnit → Bytes
  | .char c => char quote c
  | .stray b => "\\x" ++ Bytes.zeroPad 2 (Bytes.hexadecimal b.toNat)

end Quoted

/-- The text between double quotes. -/
def Bytes.quoted (text : Bytes) : Bytes :=
  "\"" ++ text.units.flatMap (Quoted.unit '"') ++ "\""

/-- The character between single quotes. -/
def quotedChar (c : Char) : Bytes :=
  "'" ++ Quoted.char '\'' c ++ "'"

/-- The character with a given code point; a number that is none gives the replacement
character. -/
def charOfCode (code : Int) : Char :=
  match code with
  | .ofNat n => if n.isValidChar then Char.ofNat n else Char.ofNat 0xfffd
  | .negSucc _ => Char.ofNat 0xfffd

end Arrowlet
