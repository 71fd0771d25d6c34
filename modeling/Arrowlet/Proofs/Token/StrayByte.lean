import Arrowlet.Proofs.Position.Offset
import Arrowlet.Proofs.Token.Faults

/-!
# The first byte that belongs to no character

A text that does not consist of encoded characters is refused at the byte after the longest
beginning that does, whatever tokens stand before or behind it (`lex_reports_first_stray_byte`).
That byte is the same for every way to cut a beginning off, because no encoded character begins with
it (`Bytes.IsEncoded.prefix_of_stray`). The position is counted by the check of the encoding on its
own, and is the one that the lexer would count. The lexer itself never finds such a byte
(`Lexer.tokens_ne_stray`), so the fault of the encoding cannot be taken for one of its own.
-/

namespace Arrowlet

open Bytes

/-- An encoded beginning of a text ends before a byte that begins no character. -/
theorem Bytes.IsEncoded.prefix_of_stray {s valid rest : Bytes} {b : UInt8} (hs : s.IsEncoded)
    (hvalid : valid.IsEncoded) (hstray : firstChar? (b :: rest) = none)
    (hbegins : s <+: valid ++ b :: rest) : s <+: valid := by
  rcases List.prefix_or_prefix_of_prefix hbegins (List.prefix_append valid (b :: rest)) with h | h
  · exact h
  · obtain ⟨t, rfl⟩ := h
    have ht := hvalid.append_iff.mp hs
    by_cases hnil : t = []
    · simp [hnil]
    · -- What goes beyond would begin with a character, and then so does the rest.
      obtain ⟨c, hc⟩ := Option.ne_none_iff_exists'.mp (ht.firstChar?_ne_none hnil)
      obtain ⟨more, hmore⟩ := (List.prefix_append_right_inj valid).mp hbegins
      rw [← hmore, ← encode_append_drop_of_firstChar? hc, List.append_assoc,
        firstChar?_encode_append] at hstray
      cases hstray

namespace Lexer

/-- Where the lexer is stuck, the fault is a character and not a byte. -/
theorem fault_ne_encoding (l : Lexer) (b : UInt8) : l.fault.fault ≠ .encoding b := by
  rcases l.fault_cases with h | h <;> simp [h]

/-- The lexer never finds a byte that belongs to no character. -/
theorem tokens_ne_stray {l : Lexer} {e : LexError} (h : l.tokens = .error e) (b : UInt8) :
    e.fault ≠ .encoding b := by
  obtain ⟨d, rest, -, -, -, rfl, -⟩ := tokens_eq_error h
  exact fault_ne_encoding _ b

end Lexer

/-- Where a byte is reported, encoded characters stand before it and none begins with it. -/
theorem lex_eq_stray {src : Bytes} {e : LexError} {b : UInt8} (h : lex src = .error e)
    (hfault : e.fault = .encoding b) :
    ∃ cs rest, src = ofChars cs ++ b :: rest ∧ firstChar? (b :: rest) = none ∧
      e = ⟨b.toNat, .ofOffset cs cs.length, .encoding b⟩ := by
  rcases lex_error_cases h with ⟨valid, b', rest, hsrc, ⟨cs, rfl⟩, hstray, rfl⟩ |
    ⟨d, rest, -, -, -, -, -, rfl⟩
  · cases hfault
    refine ⟨cs, rest, hsrc, hstray, ?_⟩
    rw [← Position.after_ofChars_length]
    rfl
  · exact absurd hfault (Lexer.fault_ne_encoding _ b)

/-- A byte is reported exactly in the texts that do not consist of encoded characters. -/
theorem lex_stray_iff {src : Bytes} :
    (∃ e b, lex src = .error e ∧ e.fault = .encoding b) ↔ ¬ src.IsEncoded := by
  constructor
  · rintro ⟨e, b, h, hfault⟩
    obtain ⟨cs, rest, rfl, hstray, -⟩ := lex_eq_stray h hfault
    exact not_isEncoded_of_stray (isEncoded_ofChars cs) hstray
  · intro hsrc
    obtain ⟨valid, b, rest, rfl, hvalid, hstray⟩ := (isEncoded_or_stray src).resolve_left hsrc
    exact ⟨_, b, lex_of_stray hvalid hstray, rfl⟩

/-- **The first byte that belongs to no character is reported, before any other fault.** A text is
refused for its encoding exactly if it does not consist of encoded characters, which is to say that
it cannot be cut into sequences of bytes in the ranges for characters. The byte that is reported
stands after the longest encoded beginning, at the position that the lexer has after going over the
characters of that, and the message reads this position and the byte. No run of the lexer gives this
fault, so that one of the lexer is never reported instead. -/
theorem lex_reports_first_stray_byte (src : Bytes) :
    ((∃ e b, lex src = .error e ∧ e.fault = .encoding b) ↔ ¬ src.IsEncoded) ∧
    (src.IsEncoded ↔ ∃ ws : List Bytes, src = ws.flatten ∧ ∀ w ∈ ws, IsSequence w) ∧
    ∀ e b, lex src = .error e → e.fault = .encoding b →
      e.char = b.toNat ∧
      e.message = e.pos.text ++ ": invalid UTF-8 byte 0x" ++ hexadecimal b.toNat ∧
      (∃ cs rest, src = ofChars cs ++ b :: rest ∧
        (∀ s : Bytes, s <+: src → s.IsEncoded → s <+: ofChars cs) ∧
        e.pos = ((Lexer.ofText src).skip (ofChars cs).length).pos ∧
        e.pos = .ofOffset cs cs.length) ∧
      ∀ (l : Lexer) e', l.tokens = .error e' → e' ≠ e := by
  refine ⟨lex_stray_iff, isEncoded_iff_sequences, fun e b h hfault => ?_⟩
  obtain ⟨cs, rest, rfl, hstray, rfl⟩ := lex_eq_stray h hfault
  refine ⟨rfl, ?_, ⟨cs, rest, rfl, fun s hbegins hs => ?_, ?_, rfl⟩, ?_⟩
  · simp only [LexError.message, LexError.reason, List.append_assoc]
    rfl
  · exact hs.prefix_of_stray (isEncoded_ofChars cs) hstray hbegins
  · rw [Lexer.ofText, Lexer.skip_append]
    exact (Position.after_ofChars_length cs).symm
  · rintro l e' he' rfl
    exact Lexer.tokens_ne_stray he' b rfl

-- A surrogate is refused at its first byte although a bad character stands before it, and the
-- encoded replacement character is one like any other.
example : lex [0x40, 0xed, 0xa0, 0x80] = .error ⟨0xed, ⟨1, 2⟩, .encoding 0xed⟩ := by
  decide +kernel

example : lex "\"\ufffd\"" = .ok [⟨.string, "\"\ufffd\"", ⟨1, 1⟩⟩, ⟨.eof, [], ⟨1, 4⟩⟩] := by
  decide +kernel

end Arrowlet
