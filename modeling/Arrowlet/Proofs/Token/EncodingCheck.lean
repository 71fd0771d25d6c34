import Arrowlet.Proofs.Position.Offset
import Arrowlet.Token.Lexer

/-!
# The check of the encoding

`encodingError?` goes over a text by characters until it finds a byte that belongs to none, and
counts lines and columns on its way. The lexer counts by bytes, and the two counts agree behind
every encoded beginning (`Bytes.IsEncoded.encodingError?_append`).

So nothing is found exactly in the encoded texts (`encodingError?_eq_none_iff`), and what is found
stands at the position that the lexer has behind the encoded beginning (`encodingError?_stray`). The
tokens of a text are told by these two cases (`lex_of_isEncoded`, `lex_of_stray`).
-/

namespace Arrowlet

open Bytes

/-- One step over an encoded character. -/
theorem encodingError?_encode_append (line column : Int) (c : Char) (rest : Bytes) :
    encodingError? line column (String.utf8EncodeChar c ++ rest) =
      if c = '\n' then encodingError? (line + 1) 1 rest
      else encodingError? line (column + 1) rest := by
  obtain ⟨b, w, heq, hsize⟩ := exists_encode_eq_cons c
  have hchar := firstChar?_encode_append c rest
  rw [heq, List.cons_append] at hchar ⊢
  rw [encodingError?, hchar]
  simp only [hsize, List.drop_left]

/-- Behind encoded characters, the count by characters has come to where the lexer is. -/
theorem Bytes.IsEncoded.encodingError?_append {s : Bytes} (hs : s.IsEncoded) (pos : Position)
    (text : Bytes) :
    encodingError? pos.line pos.column (s ++ text) =
      encodingError? (pos.after s).line (pos.after s).column text := by
  obtain ⟨cs, rfl⟩ := hs
  induction cs generalizing pos with
  | nil => rfl
  | cons c cs ih =>
    rw [List.flatMap_cons, List.append_assoc, encodingError?_encode_append, Position.after_append,
      ← ih, Position.after_encode]
    split <;> rfl

section
variable {src valid rest : Bytes} {b : UInt8}

/-- A byte that begins no character is found behind encoded characters. -/
theorem encodingError?_stray (hvalid : valid.IsEncoded) (hstray : firstChar? (b :: rest) = none)
    (pos : Position) :
    encodingError? pos.line pos.column (valid ++ b :: rest) =
      some ⟨b.toNat, pos.after valid, .encoding b⟩ := by
  rw [hvalid.encodingError?_append, encodingError?, hstray]

/-- Nothing is found in encoded characters. -/
theorem encodingError?_of_isEncoded (h : src.IsEncoded) (pos : Position) :
    encodingError? pos.line pos.column src = none := by
  have happend := h.encodingError?_append pos []
  rwa [List.append_nil, encodingError?] at happend

/-- A text with a byte that begins no character behind encoded ones is not encoded. -/
theorem Bytes.not_isEncoded_of_stray (hvalid : valid.IsEncoded)
    (hstray : firstChar? (b :: rest) = none) : ¬ IsEncoded (valid ++ b :: rest) := by
  intro h
  exact (hvalid.append_iff.mp h).firstChar?_ne_none (List.cons_ne_nil _ _) hstray

theorem encodingError?_eq_none_iff : encodingError? 1 1 src = none ↔ src.IsEncoded := by
  constructor
  · intro h
    rcases isEncoded_or_stray src with hsrc | ⟨valid, b, rest, rfl, hvalid, hstray⟩
    · exact hsrc
    · cases h.symm.trans (encodingError?_stray hvalid hstray .start)
  · intro h
    exact encodingError?_of_isEncoded h .start

/-- The tokens of an encoded text are those that the lexer reads. -/
theorem lex_of_isEncoded (h : src.IsEncoded) : lex src = (Lexer.ofText src).tokens := by
  rw [lex, encodingError?_eq_none_iff.mpr h]

/-- Any other text is refused at the byte behind its encoded beginning. -/
theorem lex_of_stray (hvalid : valid.IsEncoded) (hstray : firstChar? (b :: rest) = none) :
    lex (valid ++ b :: rest) = .error ⟨b.toNat, Position.start.after valid, .encoding b⟩ := by
  have herror : encodingError? 1 1 (valid ++ b :: rest) = some _ :=
    encodingError?_stray hvalid hstray .start
  rw [lex, herror]

end

end Arrowlet
