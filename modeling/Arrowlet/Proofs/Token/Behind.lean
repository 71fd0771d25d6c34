import Arrowlet.Proofs.CText.ReadBack
import Arrowlet.Proofs.Position.Behind
import Arrowlet.Proofs.Program.Relocation

/-!
# The tokens of a text behind another one

`lex_append`: behind a text whose last lexeme is a mark that nothing can go on with, a text has the
tokens that it has alone, and fails where it fails alone. Only the positions are those behind the
first text.

Reading a text from another position commutes with `Position.behind`, step by step
(`Lexer.next_relocate`) and so in a run (`Lexer.tokens_relocate`). The first text is taken off piece
by piece (`Lexer.tokens_layout_append`): each piece is read as in the first text alone, since the
byte after it is the same, and the last one is read because nothing goes on with it.
-/

namespace Arrowlet

open Lexeme

/-- An error at another position. -/
def LexError.relocate (move : Position → Position) (e : LexError) : LexError :=
  { e with pos := move e.pos }

namespace Lexer

variable {l l' : Lexer} {t : Token} {pos : Position} {s w rest : Bytes}

/-! ## Other positions -/

/-- A lexer at another position. -/
def relocate (move : Position → Position) (l : Lexer) : Lexer := { l with pos := move l.pos }

theorem skip_relocate (h : 1 ≤ l.pos.line) (s : Bytes) (n : Nat) :
    (l.relocate (.behind s)).skip n = (l.skip n).relocate (.behind s) := by
  simp only [skip, relocate, Position.behind_after h]

/-- A step behind a text is the step without it, at another position. -/
theorem next_relocate (h : 1 ≤ l.pos.line) (s : Bytes) :
    (l.relocate (.behind s)).next =
      (l.next.map (Prod.map (Token.relocate (.behind s)) (relocate (.behind s)))).mapError
        (LexError.relocate (.behind s)) := by
  have hblanks : (l.relocate (.behind s)).skipBlanks = l.skipBlanks.relocate (.behind s) :=
    skip_relocate h s _
  have hline : 1 ≤ l.skipBlanks.pos.line := Position.one_le_line_after h _
  generalize hl' : l.skipBlanks = l' at hblanks hline
  have hrest : (l'.relocate (.behind s)).rest = l'.rest := rfl
  rw [next, next, hblanks, hl']
  simp only [hrest]
  split
  · rfl
  · split
    · rw [skip_relocate hline]
      rfl
    · rfl

/-! ## Runs -/

/-- A run is given by its first step. -/
theorem tokens_congr (h : l.next = l'.next) : l.tokens = l'.tokens := by
  cases hnext : l.next with
  | error e => rw [tokens_of_error hnext, tokens_of_error (h ▸ hnext)]
  | ok reading =>
    obtain ⟨t, l''⟩ := reading
    by_cases ht : t.kind = .eof
    · rw [tokens_of_eof hnext ht, tokens_of_eof (h ▸ hnext) ht]
    · rw [tokens_eq_map hnext ht]
      exact (tokens_eq_map (h ▸ hnext) ht).symm

/-- A run behind a text is the run without it, at other positions. -/
theorem tokens_relocate (h : 1 ≤ l.pos.line) (s : Bytes) :
    (l.relocate (.behind s)).tokens =
      (l.tokens.map (List.map (Token.relocate (.behind s)))).mapError
        (LexError.relocate (.behind s)) := by
  induction hn : l.rest.length using Nat.strongRecOn generalizing l with
  | ind n ih =>
    subst hn
    have hstep := next_relocate h s
    cases hnext : l.next with
    | error e =>
      rw [hnext] at hstep
      rw [tokens_of_error hnext, tokens_of_error hstep]
      rfl
    | ok reading =>
      obtain ⟨t, l'⟩ := reading
      rw [hnext] at hstep
      by_cases ht : t.kind = .eof
      · rw [tokens_of_eof hnext ht, tokens_of_eof hstep ht]
        rfl
      · have hline : 1 ≤ l'.pos.line := by
          rcases next_cases hnext with ⟨-, rfl⟩ | ⟨p, -, -, -, hpos, -⟩
          · exact absurd rfl ht
          · rw [hpos]
            exact Position.one_le_line_after h _
        rw [tokens_eq_map hnext ht, tokens_eq_map hstep ht,
          ih _ (next_length_lt hnext ht) hline rfl]
        cases l'.tokens <;> rfl

/-- Blanks in front of a text do not change its tokens. -/
theorem tokens_blank_append (hw : ∀ b ∈ w, isBlank b) :
    (⟨w ++ rest, pos⟩ : Lexer).tokens = (⟨rest, pos.after w⟩ : Lexer).tokens := by
  have hskip : (⟨w ++ rest, pos⟩ : Lexer).skipBlanks =
      (⟨rest, pos.after w⟩ : Lexer).skipBlanks := by
    have hsplit := List.takeWhile_append_dropWhile (p := isBlank) (l := rest)
    have hblank : ∀ b ∈ rest.takeWhile isBlank, isBlank b := fun b hb => of_mem_takeWhile hb
    rw [← hsplit, ← List.append_assoc, skipBlanks_append, skipBlanks_append hblank,
      Position.after_append]
    · exact boundary_dropWhile rest
    · exact List.forall_mem_append.mpr ⟨hw, hblank⟩
    · exact boundary_dropWhile rest
  refine tokens_congr ?_
  rw [next, next, hskip]

end Lexer

/-- Nothing goes on with the last piece. -/
def Layout.Closed (d : Layout) : Prop := ∀ p ∈ d.pieces.getLast?, ∀ b, continues p.kind b = false

/-- Behind a layout that nothing goes on with, the lexer reads the tokens of the layout and then
those of the text behind it. -/
theorem Lexer.tokens_layout_append {d : Layout} (h : d.WellFormed) (hclosed : d.Closed)
    (rest : Bytes) (pos : Position) :
    (⟨d.text ++ rest, pos⟩ : Lexer).tokens =
      (⟨rest, pos.after d.text⟩ : Lexer).tokens.map
        (beforeEnd (Layout.tokensFrom pos d.pieces d.last) ++ ·) := by
  obtain ⟨pieces, last⟩ := d
  induction pieces generalizing pos with
  | nil =>
    rw [Layout.text_nil, tokens_blank_append (Layout.wellFormed_nil_iff.mp h)]
    cases (⟨rest, pos.after last⟩ : Lexer).tokens <;> rfl
  | cons p pieces ih =>
    obtain ⟨hp, -, hpieces⟩ := Layout.wellFormed_cons_iff.mp h
    have hcont : ∀ b ∈ (Layout.text ⟨pieces, last⟩ ++ rest).head?, continues p.kind b = false := by
      cases pieces with
      | nil => exact fun b _ => hclosed p rfl b
      | cons q pieces =>
        intro b hb
        refine h.continues_eq_false b ?_
        obtain ⟨c, w, hlexeme, -⟩ := (Layout.wellFormed_cons_iff.mp hpieces).1.lexeme.exists_head
        have hne : Layout.text ⟨q :: pieces, last⟩ ≠ [] := by simp [Piece.text, hlexeme]
        rwa [List.head?_append_of_ne_nil _ hne] at hb
    have hclosed' : Layout.Closed ⟨pieces, last⟩ := by
      cases pieces with
      | nil =>
        intro q hq
        cases hq
      | cons q pieces => exact hclosed
    rw [Layout.text_cons, List.append_assoc, tokens_eq_map (next_piece hp hcont) hp.kind_ne_eof,
      ih _ hpieces hclosed', Layout.beforeEnd_tokensFrom_cons hp, Position.after_append]
    cases (⟨rest, (pos.after p.text).after (Layout.text ⟨pieces, last⟩)⟩ : Lexer).tokens <;> rfl

/-- **A text behind another one has its own tokens.** If nothing goes on with the last lexeme of the
first text, then its tokens are followed by those of the second one, or the second one fails as it
does alone, with positions behind the first one. -/
theorem lex_append {s : Bytes} (hs : s.IsEncoded) {d : Layout} (hd : d.WellFormed)
    (htext : d.text = s) (hclosed : d.Closed) (text : Bytes) :
    lex (s ++ text) =
      ((lex text).map fun ts => beforeEnd d.tokens ++ ts.map (Token.relocate (.behind s))).mapError
        (LexError.relocate (.behind s)) := by
  rcases Bytes.isEncoded_or_stray text with hencoded | ⟨valid, b, rest, rfl, hvalid, hstray⟩
  · rw [lex_of_isEncoded (hs.append hencoded), lex_of_isEncoded hencoded]
    have hstart : (⟨text, Position.start.after s⟩ : Lexer) =
        (Lexer.ofText text).relocate (.behind s) := by
      rw [← Position.behind_start hs]
      rfl
    have happend := Lexer.tokens_layout_append hd hclosed text .start
    rw [htext, hstart, Lexer.tokens_relocate (Int.le_refl 1)] at happend
    refine Eq.trans happend ?_
    cases (Lexer.ofText text).tokens <;> rfl
  · rw [← List.append_assoc, lex_of_stray (hs.append hvalid) hstray, lex_of_stray hvalid hstray,
      Position.after_behind hs]
    rfl

end Arrowlet
