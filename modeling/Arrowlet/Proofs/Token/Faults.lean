import Arrowlet.Proofs.Text.Lines
import Arrowlet.Proofs.Token.Layout

/-!
# Where reading tokens fails

A run of the lexer that fails has taken off a well-formed layout before and is stuck: what is left
begins with no blank and with no lexeme (`Lexer.tokens_eq_error`). It takes off the same layout
before anything else that it is stuck at and that begins with the same two bytes. So a text has no
tokens for one of two reasons (`lex_error_cases`): it holds a byte that belongs to no character, or
a well-formed layout of its beginning is followed by a place where the lexer is stuck.

In a text of encoded characters a layout ends with a whole character, because the last byte of a
lexeme is below 128 (`Layout.WellFormed.isEncoded_of_append`). So it is a character that the lexer
is stuck at (`Lexer.Stuck.exists_char`).
-/

namespace Arrowlet

open Lexeme

/-! ## Bytes of a lexeme -/

namespace Lexeme

section
variable {kind : Kind} {w : Bytes}

/-- The bytes of a lexeme that is no quoted text are visible characters of ASCII. -/
theorem IsSpelling.visible (h : IsSpelling kind w) (hk : kind ≠ .string) :
    ∀ b ∈ w, 32 < b.toNat ∧ b.toNat < 127 := by
  intro b hb
  have hmarks : ∀ kind ∈ marks, kind.symbol.all fun b => 32 < b.toNat && b.toNat < 127 := by decide
  cases kind with
  | eof | unknown => exact h.elim
  | string => exact absurd rfl hk
  | number =>
    rcases IsNumber.isDigit_or_eq_dot h b hb with hdigit | rfl
    · rw [isDigit_iff] at hdigit
      omega
    · decide
  | identifier | define | write | read =>
    have hpart := (h.word rfl).1.isWordPart b hb
    rw [isWordPart_iff, isWordStart_iff, isDigit_iff] at hpart
    omega
  | _ =>
    obtain rfl : w = _ := h
    simpa using List.all_eq_true.mp (hmarks _ (by decide)) b hb

/-- A lexeme is a single line. -/
theorem IsSpelling.isLine (h : IsSpelling kind w) : w.IsLine := by
  by_cases hk : kind = .string
  · subst hk
    obtain ⟨body, rfl, hbody⟩ := h
    refine .append (fun hmem => ?_) (by decide)
    rcases List.mem_cons.mp hmem with heq | hmem
    · exact absurd heq (by decide)
    · exact (hbody _ hmem).2 rfl
  · intro hmem
    have := (h.visible hk _ hmem).1
    exact absurd this (by decide)

/-- The last byte of a lexeme is a visible character of ASCII. -/
theorem IsSpelling.exists_last (h : IsSpelling kind w) :
    ∃ b ∈ w.getLast?, 32 < b.toNat ∧ b.toNat < 127 := by
  by_cases hk : kind = .string
  · subst hk
    obtain ⟨body, rfl, -⟩ := h
    exact ⟨Bytes.quote, List.getLast?_concat .., by decide⟩
  · obtain ⟨c, rest, heq, -⟩ := h.exists_head
    have hne : w ≠ [] := by simp [heq]
    exact ⟨w.getLast hne, List.getLast?_eq_some_getLast hne, h.visible hk _ (List.getLast_mem hne)⟩

end

theorem lt_of_isBlank {b : UInt8} (h : isBlank b) : b.toNat < 128 := by
  rw [isBlank_iff] at h
  omega

end Lexeme

/-- In a text of encoded characters, a piece ends with a whole character. -/
theorem Piece.WellFormed.isEncoded_of_append {p : Piece} (hp : p.WellFormed) {rest : Bytes}
    (h : Bytes.IsEncoded (p.text ++ rest)) : p.text.IsEncoded ∧ rest.IsEncoded := by
  obtain ⟨b, hb, hvisible⟩ := hp.lexeme.exists_last
  refine h.of_append_ascii fun c hc => ?_
  rw [Piece.text, List.getLast?_append, Option.mem_def.mp hb] at hc
  cases hc
  omega

/-- In a text of encoded characters, a layout ends with a whole character. -/
theorem Layout.WellFormed.isEncoded_of_append {d : Layout} (hd : d.WellFormed) {rest : Bytes}
    (h : Bytes.IsEncoded (d.text ++ rest)) : d.text.IsEncoded ∧ rest.IsEncoded := by
  obtain ⟨pieces, last⟩ := d
  induction pieces with
  | nil =>
    refine h.of_append_ascii fun b hb => lt_of_isBlank ?_
    exact wellFormed_nil_iff.mp hd b (List.mem_of_getLast? hb)
  | cons p pieces ih =>
    obtain ⟨hp, -, hpieces⟩ := wellFormed_cons_iff.mp hd
    rw [text_cons, List.append_assoc] at h
    obtain ⟨hpiece, h⟩ := hp.isEncoded_of_append h
    obtain ⟨htext, hrest⟩ := ih hpieces h
    rw [text_cons]
    exact ⟨hpiece.append htext, hrest⟩

/-! ## Runs that fail -/

namespace Lexer

/-- A text that begins with no blank and with no lexeme. -/
structure Stuck (rest : Bytes) : Prop where
  ne_nil : rest ≠ []
  head : ∀ b ∈ rest.head?, ¬ isBlank b
  read : read? rest = none

theorem fault_cases (l : Lexer) :
    l.fault.fault = .unterminated ∨ l.fault.fault = .unexpected := by
  simp only [fault]
  split
  · exact .inl rfl
  · exact .inr rfl

/-- In a text of encoded characters, the lexer is stuck at a character, which is the one that the
fault names. None of its bytes is a blank. -/
theorem Stuck.exists_char {rest : Bytes} (h : Stuck rest) (hrest : rest.IsEncoded) :
    ∃ c more, rest = String.utf8EncodeChar c ++ more ∧
      (∀ pos, (⟨rest, pos⟩ : Lexer).fault.char = c.toNat) ∧
      ∀ b ∈ String.utf8EncodeChar c, ¬ isBlank b := by
  obtain ⟨c, hc⟩ := Option.ne_none_iff_exists'.mp (hrest.firstChar?_ne_none h.ne_nil)
  have hchar := Bytes.encode_append_drop_of_firstChar? hc
  refine ⟨c, _, hchar.symm, fun pos => by simp only [fault, hc, Option.getD_some], ?_⟩
  obtain ⟨first, others, heq, -, hothers⟩ := Bytes.exists_encode_eq_first c
  intro b hb hblank
  rw [heq] at hb hchar
  rcases List.mem_cons.mp hb with rfl | hb
  · exact h.head b (by rw [← hchar]; rfl) hblank
  · have hcont := Position.isContinuation_iff.mp (List.all_eq_true.mp hothers b hb)
    have := lt_of_isBlank hblank
    omega

variable {l : Lexer} {e : LexError}

/-- A step fails where the lexer is stuck after blanks. -/
theorem next_eq_error (h : l.next = .error e) :
    ∃ w rest, l.rest = w ++ rest ∧ (∀ b ∈ w, isBlank b) ∧ Stuck rest ∧
      e = (⟨rest, l.pos.after w⟩ : Lexer).fault := by
  obtain ⟨text, pos⟩ := l
  have hsplit := List.takeWhile_append_dropWhile (p := isBlank) (l := text)
  have hblank : ∀ b ∈ text.takeWhile isBlank, isBlank b := fun b hb => of_mem_takeWhile hb
  have hend := boundary_dropWhile (p := isBlank) text
  generalize text.takeWhile isBlank = w at hsplit hblank
  generalize text.dropWhile isBlank = rest at hsplit hend
  subst hsplit
  rw [next, skipBlanks_append hblank hend] at h
  simp only at h
  split at h
  · cases h
  · next hne =>
    split at h
    · cases h
    · next hread =>
      cases h
      exact ⟨w, rest, rfl, hblank, ⟨hne, hend, hread⟩, rfl⟩

/-- Where the lexer is stuck after blanks, a step fails. -/
theorem next_stuck {w rest : Bytes} (hw : ∀ b ∈ w, isBlank b) (h : Stuck rest) (pos : Position) :
    (⟨w ++ rest, pos⟩ : Lexer).next = .error (⟨rest, pos.after w⟩ : Lexer).fault := by
  rw [next, skipBlanks_append hw h.head, if_neg h.ne_nil]
  simp only [h.read]

/-- A piece is taken off again if the two bytes after it stay. -/
theorem next_piece_congr {p : Piece} {rest rest' : Bytes} {pos : Position} (hp : p.WellFormed)
    (h : (⟨p.text ++ rest, pos⟩ : Lexer).next = .ok (p.token pos, ⟨rest, pos.after p.text⟩))
    (htake : rest'.take 2 = rest.take 2) :
    (⟨p.text ++ rest', pos⟩ : Lexer).next = .ok (p.token pos, ⟨rest', pos.after p.text⟩) :=
  (next_piece_iff hp).mpr (read?_congr_take ((next_piece_iff hp).mp h) htake)

/-- A run that fails takes off a well-formed layout, and what is left is where it is stuck. It takes
off the same layout before any rest that begins with the same two bytes. -/
theorem tokens_eq_error (h : l.tokens = .error e) :
    ∃ (d : Layout) (rest : Bytes), d.WellFormed ∧ l.rest = d.text ++ rest ∧ Stuck rest ∧
      e = (⟨rest, l.pos.after d.text⟩ : Lexer).fault ∧
      ∀ rest', Stuck rest' → rest'.take 2 = rest.take 2 →
        (⟨d.text ++ rest', l.pos⟩ : Lexer).tokens =
          .error (⟨rest', l.pos.after d.text⟩ : Lexer).fault := by
  fun_induction tokens l with
  | case1 l e' hnext =>
    cases h
    obtain ⟨w, rest, hrest, hblank, hstuck, he⟩ := next_eq_error hnext
    refine ⟨⟨[], w⟩, rest, Layout.wellFormed_nil_iff.mpr hblank, hrest, hstuck, he, ?_⟩
    intro rest' hstuck' _
    exact tokens_of_error (next_stuck hblank hstuck' l.pos)
  | case2 | case4 => cases h
  | case3 l t l' hnext hkind e' herror ih =>
    cases h
    rcases next_cases hnext with ⟨-, rfl⟩ | ⟨p, hp, hrest, rfl, hpos, hcont⟩
    · exact absurd rfl hkind
    · obtain ⟨⟨pieces, last⟩, rest, hd, hrest', hstuck, he, hagain⟩ := ih herror
      -- Only a layout with a text has a first piece, and its first byte is that of the rest.
      have happart : ∀ b ∈ (Layout.text ⟨pieces, last⟩).head?,
          continues p.kind b → b = Bytes.dot := by
        intro b hb
        refine hcont b ?_
        rw [hrest', List.head?_append, Option.mem_def.mp hb]
        rfl
      refine ⟨⟨p :: pieces, last⟩, rest, ?_, ?_, hstuck, ?_, ?_⟩
      · exact Layout.wellFormed_cons_iff.mpr ⟨hp, hd.apart_of_continues happart, hd⟩
      · rw [Layout.text_cons, hrest, hrest', List.append_assoc]
      · rw [Layout.text_cons, Position.after_append, ← hpos]
        exact he
      · intro rest'' hstuck'' htake
        have hstep : (⟨p.text ++ l'.rest, l.pos⟩ : Lexer).next =
            .ok (p.token l.pos, ⟨l'.rest, l.pos.after p.text⟩) := by
          rw [← hrest, ← hpos]
          exact hnext
        rw [hrest'] at hstep
        have hagain' := next_piece_congr hp hstep (append_congr_take htake _)
        rw [Layout.text_cons, List.append_assoc, tokens_eq_map hagain' hp.kind_ne_eof, ← hpos,
          hagain rest'' hstuck'' htake, Position.after_append, hpos]
        rfl

end Lexer

/-- A text has no tokens because a byte belongs to no character, or because the lexer is stuck
behind a layout. -/
theorem lex_error_cases {src : Bytes} {e : LexError} (h : lex src = .error e) :
    (∃ valid b rest, src = valid ++ b :: rest ∧ valid.IsEncoded ∧
      Bytes.firstChar? (b :: rest) = none ∧
      e = ⟨b.toNat, Position.start.after valid, .encoding b⟩) ∨
    ∃ (d : Layout) (rest : Bytes), d.WellFormed ∧ src = d.text ++ rest ∧ d.text.IsEncoded ∧
      rest.IsEncoded ∧ Lexer.Stuck rest ∧
      e = (⟨rest, Position.start.after d.text⟩ : Lexer).fault := by
  rcases Bytes.isEncoded_or_stray src with hsrc | ⟨valid, b, rest, rfl, hvalid, hstray⟩
  · rw [lex_of_isEncoded hsrc] at h
    obtain ⟨d, rest, hd, heq, hstuck, he, -⟩ := Lexer.tokens_eq_error h
    have hrest : src = d.text ++ rest := heq
    rw [hrest] at hsrc
    obtain ⟨htext, hrest'⟩ := hd.isEncoded_of_append hsrc
    exact .inr ⟨d, rest, hd, hrest, htext, hrest', hstuck, he⟩
  · rw [lex_of_stray hvalid hstray] at h
    cases h
    exact .inl ⟨valid, b, rest, rfl, hvalid, hstray, rfl⟩

end Arrowlet
