/-!
# Texts as byte strings

Programs, paths, arguments and messages are byte strings: none of them has to be valid UTF-8.
This module holds the type and the few operations on it that every layer uses: decimal and
hexadecimal numerals, cutting a text into lines, joining and trimming.
-/

namespace Arrowlet

/-- A text, byte by byte. -/
abbrev Bytes := List UInt8

namespace Bytes

/-- The UTF-8 form of a string. -/
def ofString (s : String) : Bytes := s.toUTF8.data.toList

/-- A string literal stands for its UTF-8 form where a text is expected. -/
instance : Coe String Bytes := ⟨ofString⟩

/-- The line feed, which ends a line. -/
abbrev lineFeed : UInt8 := 0x0a

/-- The carriage return. -/
abbrev carriageReturn : UInt8 := 0x0d

/-- The horizontal tab. -/
abbrev tab : UInt8 := 0x09

/-- The space. -/
abbrev space : UInt8 := 0x20

/-- The double quote. -/
abbrev quote : UInt8 := 0x22

/-- The full stop, which starts a fraction or an extension. -/
abbrev dot : UInt8 := 0x2e

/-- The slash, which divides the elements of a path. -/
abbrev slash : UInt8 := 0x2f

/-- One of `0` to `9`. -/
def isDigit (b : UInt8) : Bool := 0x30 ≤ b && b ≤ 0x39

/-- An ASCII letter of either case. -/
def isLetter (b : UInt8) : Bool := (0x41 ≤ b && b ≤ 0x5a) || (0x61 ≤ b && b ≤ 0x7a)

/-- The decimal numeral of a natural number. -/
def decimal (n : Nat) : Bytes := (Nat.toDigits 10 n).map Char.toUInt8

/-- The decimal numeral of an integer, with a minus sign below zero. -/
def ofInt : Int → Bytes
  | .ofNat n => decimal n
  | .negSucc n => "-" ++ decimal (n + 1)

/-- The lower-case hexadecimal numeral of a natural number. -/
def hexadecimal (n : Nat) : Bytes := (Nat.toDigits 16 n).map Char.toUInt8

/-- The octal numeral of a natural number. -/
def octal (n : Nat) : Bytes := (Nat.toDigits 8 n).map Char.toUInt8

/-- Puts zeros in front of a numeral until it has at least `width` digits. -/
def zeroPad (width : Nat) (numeral : Bytes) : Bytes :=
  List.replicate (width - numeral.length) 0x30 ++ numeral

/-- The pieces between the occurrences of `sep`; one more than there are occurrences. -/
def splitOn (sep : UInt8) : Bytes → List Bytes
  | [] => [[]]
  | b :: rest =>
    if b = sep then [] :: splitOn sep rest
    else
      match splitOn sep rest with
      | [] => [[b]]
      | piece :: pieces => (b :: piece) :: pieces

/-- The pieces of a text between its line feeds. -/
def lines (text : Bytes) : List Bytes := splitOn lineFeed text

/-- The text without the bytes at its end that satisfy `p`. -/
def trimRight (p : UInt8 → Bool) (text : Bytes) : Bytes :=
  (text.reverse.dropWhile p).reverse

/-- The text without `ending`, if it ends with that. -/
def dropEnd (text ending : Bytes) : Bytes :=
  if ending.isSuffixOf text then text.take (text.length - ending.length) else text

/-- The text with a line feed at its end, added only if it has none. -/
def terminated (text : Bytes) : Bytes :=
  if text.getLast? = some lineFeed then text else text ++ [lineFeed]

end Bytes

end Arrowlet
