import Arrowlet.Text.Bytes

/-!
# Characters of a text

A text is read as UTF-8. `Bytes.firstChar?` reads the character a text begins with and fails where
no encoded character stands. `Bytes.units` reads a whole text and keeps a byte that belongs to no
character as a unit of its own, so that every text has a reading and `TextUnit.bytes` takes it back.
-/

namespace Arrowlet

/-- A unit of a text: an encoded character, or a byte that belongs to none. -/
inductive TextUnit where
  /-- An encoded character. -/
  | char (c : Char)
  /-- A byte that belongs to no encoded character. -/
  | stray (b : UInt8)
  deriving DecidableEq, Repr

namespace TextUnit

/-- The bytes of a unit. -/
def bytes : TextUnit → Bytes
  | char c => String.utf8EncodeChar c
  | stray b => [b]

end TextUnit

namespace Bytes

/-- The character whose encoding the text begins with. No encoding is longer than four bytes. -/
def firstChar? (text : Bytes) : Option Char :=
  ByteArray.utf8DecodeChar? (text.take 4).toByteArray 0

/-- The encoding of a character is read as that character, whatever follows it. -/
theorem firstChar?_encode_append (c : Char) (rest : Bytes) :
    firstChar? (String.utf8EncodeChar c ++ rest) = some c := by
  have hlen : (String.utf8EncodeChar c).length ≤ 4 := by
    rw [String.length_utf8EncodeChar]
    exact Char.utf8Size_le_four c
  rw [firstChar?, List.take_append, List.take_of_length_le hlen, List.toByteArray_append]
  exact ByteArray.utf8DecodeChar?_utf8EncodeChar_append

/-- A text that is read as a character begins with its encoding. -/
theorem encode_append_drop_of_firstChar? {text : Bytes} {c : Char}
    (h : text.firstChar? = some c) :
    String.utf8EncodeChar c ++ text.drop c.utf8Size = text := by
  have hbytes := String.toByteArray_utf8EncodeChar_of_utf8DecodeChar?_eq_some h
  have htake : String.utf8EncodeChar c = (text.take 4).take c.utf8Size := by
    simpa using congrArg (fun b => b.data.toList) hbytes
  rw [List.take_take, Nat.min_eq_left (Char.utf8Size_le_four c)] at htake
  rw [htake, List.take_append_drop]

/-- The units of a text, from left to right. -/
def units : Bytes → List TextUnit
  | [] => []
  | b :: rest =>
    match firstChar? (b :: rest) with
    | some c => .char c :: units (rest.drop (c.utf8Size - 1))
    | none => .stray b :: units rest
termination_by text => text.length
decreasing_by all_goals simp only [List.length_drop, List.length_cons]; omega

/-- The units of a text lose nothing of it. -/
theorem flatMap_bytes_units (text : Bytes) : text.units.flatMap TextUnit.bytes = text := by
  fun_induction units text with
  | case1 => rfl
  | case2 b rest c hc ih =>
    have hsize := Char.utf8Size_pos c
    have htext := encode_append_drop_of_firstChar? hc
    rw [show c.utf8Size = c.utf8Size - 1 + 1 by omega, List.drop_succ_cons] at htext
    rw [List.flatMap_cons, ih, TextUnit.bytes, htext]
  | case3 b rest _ ih => rw [List.flatMap_cons, ih, TextUnit.bytes, List.singleton_append]

/-- The number of characters of a text, a stray byte counting as one. -/
def charCount (text : Bytes) : Nat := (units text).length

/-- The text with spaces at its end until it has at least `width` characters. -/
def padRight (width : Nat) (text : Bytes) : Bytes :=
  text ++ List.replicate (width - charCount text) space

end Bytes

end Arrowlet
