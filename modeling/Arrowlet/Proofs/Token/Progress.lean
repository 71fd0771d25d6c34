import Arrowlet.Proofs.Repetition
import Arrowlet.Proofs.Text.Characters
import Arrowlet.Proofs.Token.Faults

/-!
# Reading tokens goes on to the end of the text

A step of the lexer that succeeds stands at the end of the text, or it takes bytes off it; off a
text of encoded characters it takes whole ones (`Lexer.next_takes`, `Lexer.next_takes_chars`).

`lexWithin` reads at most a given number of tokens. As every token but the last takes the first byte
of a character, a text of `k` characters is read within `k + 1` tokens (`lexWithin_eq`), whether
that succeeds or fails.
-/

namespace Arrowlet

open Bytes

/-- A text has no more characters than bytes. -/
theorem Bytes.charCount_le_length (text : Bytes) : text.charCount ≤ text.length := by
  rw [charCount]
  fun_induction units text with
  | case1 => exact Nat.le_refl 0
  | case2 b rest c _ ih =>
    simp only [List.length_cons, List.length_drop] at ih ⊢
    omega
  | case3 b rest _ ih => exact Nat.succ_le_succ ih

namespace Lexer

/-! ## Steps -/

section
variable {l l' : Lexer} {t : Token}

/-- A step that succeeds reads the end of the input and leaves nothing, or takes off a part of the
text that begins a character and, in a text of characters, ends with a whole one. -/
theorem next_takes (h : l.next = .ok (t, l')) :
    t.kind = .eof ∧ l'.rest = [] ∨
    t.kind ≠ .eof ∧ ∃ taken : Bytes, l.rest = taken ++ l'.rest ∧
      0 < taken.countP Position.isFirst ∧ (l.rest.IsEncoded → taken.IsEncoded) := by
  rcases next_cases h with ⟨hblank, rfl⟩ | ⟨p, hp, hrest, rfl, -⟩
  · have hend : l.next = .ok (_, ⟨[], l.pos.after l.rest⟩) := next_blank hblank
    rw [hend] at h
    cases h
    exact .inl ⟨rfl, rfl⟩
  · obtain ⟨b, hb, hvisible⟩ := hp.lexeme.exists_last
    refine .inr ⟨hp.kind_ne_eof, p.text, hrest, ?_, fun henc => ?_⟩
    · -- The last byte of the lexeme is below 128, so it is a character of its own.
      rw [List.countP_pos_iff]
      refine ⟨b, List.mem_append_right _ (List.mem_of_getLast? hb), ?_⟩
      exact Position.isFirst_iff.mpr (.inl (by omega))
    · rw [hrest] at henc
      exact (hp.isEncoded_of_append henc).1

/-- In a text of characters, a step that reads a token takes some of them off. -/
theorem next_takes_chars {cs : List Char} {pos : Position}
    (h : (⟨ofChars cs, pos⟩ : Lexer).next = .ok (t, l')) (ht : t.kind ≠ .eof) :
    ∃ taken rest, taken ≠ [] ∧ cs = taken ++ rest ∧ l'.rest = ofChars rest := by
  rcases next_takes h with ⟨heof, -⟩ | ⟨-, bytes, hsplit, hfirst, henc⟩
  · exact absurd heof ht
  · obtain ⟨taken, rest, hcs, rfl, hrest⟩ :=
      exists_ofChars_of_append hsplit (henc (isEncoded_ofChars cs))
    refine ⟨taken, rest, ?_, hcs, hrest⟩
    rintro rfl
    exact absurd hfirst (Nat.lt_irrefl 0)

/-- A step that reads a token leaves fewer characters. -/
theorem countP_rest_lt (h : l.next = .ok (t, l')) (ht : t.kind ≠ .eof) :
    l'.rest.countP Position.isFirst < l.rest.countP Position.isFirst := by
  rcases next_takes h with ⟨heof, -⟩ | ⟨-, taken, hsplit, hfirst, -⟩
  · exact absurd heof ht
  · rw [hsplit, List.countP_append]
    omega

end

/-! ## Runs -/

/-- Whether the token that was read is the end of the input. -/
def readsEnd (x : Token × Lexer) : Bool := x.1.kind = .eof

/-- The tokens of a text are read step by step up to the end of the input. -/
theorem tokens_isRepetition : IsRepetition next readsEnd tokens where
  fail := tokens_of_error
  stop := by
    intro l x hnext hlast
    exact tokens_of_eof hnext (of_decide_eq_true hlast)
  next := by
    intro l x hnext hlast
    exact tokens_eq_map hnext fun heof => hlast (decide_eq_true heof)

/-- A run reads at most one token more than characters are left. -/
theorem repeatWithin_next_eq {n : Nat} {l : Lexer} (h : l.rest.countP Position.isFirst < n) :
    repeatWithin next readsEnd n l = some l.tokens := by
  refine tokens_isRepetition.repeatWithin_eq (fun l => l.rest.countP Position.isFirst + 1)
    (fun _ => Nat.succ_pos _) ?_ h
  intro l x hnext hlast
  exact Nat.succ_lt_succ (countP_rest_lt hnext fun heof => hlast (decide_eq_true heof))

end Lexer

/-- The tokens of a text if at most `n` are read, and nothing if there are more. A stray byte is
found before the first token is read. -/
def lexWithin (n : Nat) (src : Bytes) : Option (Except LexError (List Token)) :=
  match encodingError? 1 1 src with
  | some e => some (.error e)
  | none => repeatWithin Lexer.next Lexer.readsEnd n (.ofText src)

/-- A text is read within one token more than it has characters. -/
theorem lexWithin_eq {n : Nat} {src : Bytes} (h : src.charCount < n) :
    lexWithin n src = some (lex src) := by
  rw [lexWithin, lex]
  cases herror : encodingError? 1 1 src with
  | some e => rfl
  | none =>
    rw [← (encodingError?_eq_none_iff.mp herror).countP_eq_charCount] at h
    exact Lexer.repeatWithin_next_eq h

/-- A text has at most one token more than characters. -/
theorem length_le_of_lex {src : Bytes} {ts : List Token} (h : lex src = .ok ts) :
    ts.length ≤ src.charCount + 1 := by
  have hwithin : lexWithin (src.charCount + 1) src = some (.ok ts) := by
    rw [lexWithin_eq (Nat.lt_succ_self _), h]
  rw [lexWithin] at hwithin
  split at hwithin
  · cases hwithin
  · exact length_le_of_repeatWithin hwithin

end Arrowlet
