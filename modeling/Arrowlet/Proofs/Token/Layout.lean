import Arrowlet.Proofs.Token.EncodingCheck
import Arrowlet.Proofs.Token.Spelling
import Mathlib.Data.List.Chain

/-!
# How a text is laid out as tokens

A `Layout` cuts a text into pieces, each a lexeme with the blanks in front of it, and the blanks
after the last one. It is well formed if the lexemes are spellings, the blanks are blanks, and there
are blanks between two lexemes wherever they would be read as one.

Reading the tokens of a text and laying it out are the same thing. A step of the lexer takes off one
piece (`Lexer.next_piece`, `Lexer.next_cases`), so a run of steps takes off a well-formed layout
(`Lexer.tokens_sound`) and every well-formed layout is taken off (`Lexer.tokens_complete`),
positions included. A text therefore has at most one well-formed layout
(`Layout.WellFormed.unique`), and `lex_accepts_layouts` says that the texts with tokens are the
encoded texts that have one.
-/

namespace Arrowlet

open Lexeme

/-- The kind and the text of a token. -/
def Token.spelling (t : Token) : Kind × Bytes := (t.kind, t.lexeme)

/-- A lexeme of a kind with the blanks in front of it. -/
structure Piece where
  /-- The blanks. -/
  blank : Bytes
  /-- The kind of the lexeme. -/
  kind : Kind
  /-- The lexeme. -/
  lexeme : Bytes
  deriving DecidableEq, Repr

namespace Piece

/-- The bytes of a piece. -/
def text (p : Piece) : Bytes := p.blank ++ p.lexeme

/-- The kind and the lexeme of a piece. -/
def spelling (p : Piece) : Kind × Bytes := (p.kind, p.lexeme)

/-- The token of a piece that begins at a position. -/
def token (p : Piece) (pos : Position) : Token := ⟨p.kind, p.lexeme, pos.after p.blank⟩

/-- The blanks of a piece are blanks, and its lexeme is a spelling of its kind. -/
structure WellFormed (p : Piece) : Prop where
  blank : ∀ b ∈ p.blank, isBlank b
  lexeme : IsSpelling p.kind p.lexeme

/-- No piece is the end of the input. -/
theorem WellFormed.kind_ne_eof {p : Piece} (h : p.WellFormed) : p.kind ≠ .eof := by
  intro heof
  have := h.lexeme
  rw [heof] at this
  exact this.elim

/-- There are blanks between two pieces if their lexemes would be read as one. -/
def Apart (p q : Piece) : Prop := p.kind.joins q.kind → q.blank ≠ []

/-- A mark needs no blanks around it. -/
theorem apart_of_mem_marks {p q : Piece} (h : p.kind ∈ marks ∨ q.kind ∈ marks) : p.Apart q := by
  intro hjoin
  rw [joins_eq_false_of_mem_marks h] at hjoin
  cases hjoin

end Piece

/-- Pieces, and the blanks after the last one. -/
structure Layout where
  /-- The lexemes with the blanks in front of them. -/
  pieces : List Piece
  /-- The blanks at the end. -/
  last : Bytes
  deriving DecidableEq, Repr

namespace Layout

/-- The text that is laid out. -/
def text (d : Layout) : Bytes := d.pieces.flatMap Piece.text ++ d.last

/-- The kinds and the lexemes of the pieces. -/
def spellings (d : Layout) : List (Kind × Bytes) := d.pieces.map Piece.spelling

/-- The tokens of the pieces from a position on, and the end of the input. -/
def tokensFrom (pos : Position) : (pieces : List Piece) → (last : Bytes) → List Token
  | [], last => [⟨.eof, [], pos.after last⟩]
  | p :: pieces, last => p.token pos :: tokensFrom (pos.after p.text) pieces last

/-- The tokens of a layout. -/
def tokens (d : Layout) : List Token := tokensFrom .start d.pieces d.last

/-- The pieces are well formed and apart, and the end is blank. -/
structure WellFormed (d : Layout) : Prop where
  pieces : ∀ p ∈ d.pieces, p.WellFormed
  apart : d.pieces.IsChain Piece.Apart
  last : ∀ b ∈ d.last, isBlank b

section
variable {p : Piece} {pieces : List Piece} {last : Bytes}

@[simp] theorem text_nil : text ⟨[], last⟩ = last := rfl

@[simp] theorem text_cons : text ⟨p :: pieces, last⟩ = p.text ++ text ⟨pieces, last⟩ := by
  simp [text]

theorem wellFormed_nil_iff : WellFormed ⟨[], last⟩ ↔ ∀ b ∈ last, isBlank b :=
  ⟨fun h => h.last, fun h => ⟨by simp, .nil, h⟩⟩

theorem wellFormed_cons_iff : WellFormed ⟨p :: pieces, last⟩ ↔
    p.WellFormed ∧ (∀ q ∈ pieces.head?, p.Apart q) ∧ WellFormed ⟨pieces, last⟩ := by
  constructor
  · rintro ⟨hpieces, hapart, hlast⟩
    rw [List.forall_mem_cons] at hpieces
    rw [List.isChain_cons] at hapart
    exact ⟨hpieces.1, hapart.1, hpieces.2, hapart.2, hlast⟩
  · rintro ⟨hp, hhead, hpieces, hapart, hlast⟩
    exact ⟨List.forall_mem_cons.mpr ⟨hp, hpieces⟩, List.isChain_cons.mpr ⟨hhead, hapart⟩, hlast⟩

/-- The spellings of the tokens are those of the pieces and an empty one for the end. -/
theorem map_spelling_tokensFrom (pos : Position) :
    (tokensFrom pos pieces last).map Token.spelling =
      pieces.map Piece.spelling ++ [(.eof, [])] := by
  induction pieces generalizing pos with
  | nil => rfl
  | cons p pieces ih => simp [tokensFrom, ih, Token.spelling, Piece.token, Piece.spelling]

/-- A token of a layout is the end of the input, or that of a piece, at the position after the
pieces before. -/
theorem mem_tokensFrom {t : Token} {pos : Position} (h : t ∈ tokensFrom pos pieces last) :
    t = ⟨.eof, [], pos.after (text ⟨pieces, last⟩)⟩ ∨
    ∃ before p behind, pieces = before ++ p :: behind ∧
      t = p.token (pos.after (before.flatMap Piece.text)) := by
  induction pieces generalizing pos with
  | nil => exact .inl (List.mem_singleton.mp h)
  | cons p pieces ih =>
    rcases List.mem_cons.mp h with rfl | h
    · exact .inr ⟨[], p, pieces, rfl, rfl⟩
    · rcases ih h with rfl | ⟨before, q, behind, rfl, rfl⟩
      · rw [text_cons, Position.after_append]
        exact .inl rfl
      · refine .inr ⟨p :: before, q, behind, rfl, ?_⟩
        rw [List.flatMap_cons, Position.after_append]

end

end Layout

/-! ## Steps -/

namespace Lexer

variable {l l' : Lexer} {t : Token} {pos : Position} {w rest : Bytes}

theorem skip_append : (⟨w ++ rest, pos⟩ : Lexer).skip w.length = ⟨rest, pos.after w⟩ := by
  simp [skip]

/-- Blanks are skipped up to where they end. -/
theorem skipBlanks_append (hw : ∀ b ∈ w, isBlank b) (hrest : ∀ b ∈ rest.head?, ¬ isBlank b) :
    (⟨w ++ rest, pos⟩ : Lexer).skipBlanks = ⟨rest, pos.after w⟩ := by
  rw [skipBlanks, takeWhile_append_of_boundary hw hrest, skip_append]

/-- At the end of a text, a step reads the end of the input. -/
theorem next_blank (hw : ∀ b ∈ w, isBlank b) :
    (⟨w, pos⟩ : Lexer).next = .ok (⟨.eof, [], pos.after w⟩, ⟨[], pos.after w⟩) := by
  have hskip : (⟨w ++ [], pos⟩ : Lexer).skipBlanks = ⟨[], pos.after w⟩ :=
    skipBlanks_append hw (by simp)
  rw [List.append_nil] at hskip
  rw [next, hskip]
  rfl

/-- A step takes off a piece exactly if its lexeme is read. -/
theorem next_piece_iff {p : Piece} (hp : p.WellFormed) :
    (⟨p.text ++ rest, pos⟩ : Lexer).next = .ok (p.token pos, ⟨rest, pos.after p.text⟩) ↔
      read? (p.lexeme ++ rest) = some (p.kind, p.lexeme) := by
  obtain ⟨b, w, hlexeme, hb⟩ := hp.lexeme.exists_head
  have hskip : (⟨p.text ++ rest, pos⟩ : Lexer).skipBlanks =
      ⟨p.lexeme ++ rest, pos.after p.blank⟩ := by
    rw [Piece.text, List.append_assoc]
    refine skipBlanks_append hp.blank fun c hc => ?_
    rw [hlexeme] at hc
    cases hc
    simp [hb.head_cases.1]
  rw [next, hskip, if_neg (by simp [hlexeme])]
  constructor
  · intro h
    split at h
    · next hread =>
      simp only [Except.ok.injEq, Prod.mk.injEq, Piece.token, Token.mk.injEq] at h
      rw [hread, h.1.1, h.1.2.1]
    · cases h
  · intro hread
    simp only [hread, skip_append, Piece.token, Piece.text, Position.after_append]

/-- A step takes off a piece if the text after it does not go on with it. -/
theorem next_piece {p : Piece} (hp : p.WellFormed)
    (hrest : ∀ b ∈ rest.head?, continues p.kind b = false) :
    (⟨p.text ++ rest, pos⟩ : Lexer).next = .ok (p.token pos, ⟨rest, pos.after p.text⟩) :=
  (next_piece_iff hp).mpr (read?_complete hp.lexeme hrest)

/-- What a step does: it reads the end of the input after blanks, or it takes off a piece. The byte
after the piece does not go on with it, unless it is a point. -/
theorem next_cases (h : l.next = .ok (t, l')) :
    ((∀ b ∈ l.rest, isBlank b) ∧ t = ⟨.eof, [], l.pos.after l.rest⟩) ∨
    ∃ p : Piece, p.WellFormed ∧ l.rest = p.text ++ l'.rest ∧ t = p.token l.pos ∧
      l'.pos = l.pos.after p.text ∧ ∀ b ∈ l'.rest.head?, continues p.kind b → b = Bytes.dot := by
  obtain ⟨text, pos⟩ := l
  have hsplit := List.takeWhile_append_dropWhile (p := isBlank) (l := text)
  generalize hw : text.takeWhile isBlank = w at hsplit
  generalize hrest : text.dropWhile isBlank = rest at hsplit
  have hblank : ∀ b ∈ w, isBlank b := fun b hb => of_mem_takeWhile (hw ▸ hb)
  have hend : ∀ b ∈ rest.head?, ¬ isBlank b := fun b hb => boundary_dropWhile text b (hrest ▸ hb)
  subst hsplit
  rw [next, skipBlanks_append hblank hend] at h
  simp only at h
  split at h
  · next hnil =>
    cases h
    subst hnil
    rw [List.append_nil]
    exact .inl ⟨hblank, rfl⟩
  · split at h
    · next kind lexeme hread =>
      obtain ⟨rest', rfl, hspelling, hcont⟩ := read?_sound hread
      rw [skip_append] at h
      cases h
      refine .inr ⟨⟨w, kind, lexeme⟩, ⟨hblank, hspelling⟩, ?_, rfl, ?_, hcont⟩
      · rw [Piece.text, List.append_assoc]
      · rw [Piece.text, Position.after_append]
    · cases h

/-! ## Runs -/

/-- A run ends with a step that reads the end of the input. -/
theorem tokens_of_eof (h : l.next = .ok (t, l')) (ht : t.kind = .eof) : l.tokens = .ok [t] := by
  rw [tokens]
  split
  · next hnext => rw [hnext] at h; cases h
  · next hnext => rw [hnext] at h; cases h; exact dif_pos ht

/-- A run fails where its first step does. -/
theorem tokens_of_error {e : LexError} (h : l.next = .error e) : l.tokens = .error e := by
  rw [tokens]
  split
  · next hnext => rw [hnext] at h; cases h; rfl
  · next hnext => rw [hnext] at h; cases h

/-- A step that reads a token goes before the rest of the run, whether this fails or not. -/
theorem tokens_eq_map (h : l.next = .ok (t, l')) (ht : t.kind ≠ .eof) :
    l.tokens = l'.tokens.map (t :: ·) := by
  rw [tokens]
  split
  · next hnext => rw [hnext] at h; cases h
  · next hnext =>
    rw [hnext] at h
    cases h
    rw [dif_neg ht]
    cases l'.tokens <;> rfl

end Lexer

namespace Layout

variable {p : Piece} {pieces : List Piece} {last : Bytes}

/-- The pieces after a piece do not go on with it, if they are apart from it. -/
theorem WellFormed.continues_eq_false (h : WellFormed ⟨p :: pieces, last⟩) :
    ∀ b ∈ (text ⟨pieces, last⟩).head?, continues p.kind b = false := by
  intro b hb
  obtain ⟨-, hapart, hrest⟩ := wellFormed_cons_iff.mp h
  cases pieces with
  | nil =>
    refine continues_eq_false_of_isBlank _ (wellFormed_nil_iff.mp hrest b ?_)
    exact List.mem_of_mem_head? hb
  | cons q pieces =>
    have hq := (wellFormed_cons_iff.mp hrest).1
    obtain ⟨c, w, hlexeme, hc⟩ := hq.lexeme.exists_head
    rw [text_cons, Piece.text] at hb
    cases hblank : q.blank with
    | nil =>
      rw [hblank, hlexeme] at hb
      cases hb
      rw [hc.continues_eq]
      exact Bool.eq_false_iff.mpr fun hjoin => hapart q rfl hjoin hblank
    | cons c' w' =>
      rw [hblank] at hb
      cases hb
      exact continues_eq_false_of_isBlank _ (hq.blank b (by simp [hblank]))

/-- A piece whose lexeme does not go on with the text after it is apart from the piece that this
text begins with. -/
theorem WellFormed.apart_of_continues (h : WellFormed ⟨pieces, last⟩)
    (hcont : ∀ b ∈ (text ⟨pieces, last⟩).head?, continues p.kind b → b = Bytes.dot) :
    ∀ q ∈ pieces.head?, p.Apart q := by
  intro q hq hjoin hblank
  obtain ⟨rest, rfl⟩ := List.head?_eq_some_iff.mp hq
  have hspelling := (wellFormed_cons_iff.mp h).1.lexeme
  obtain ⟨b, w, hlexeme, hb⟩ := hspelling.exists_head
  have hhead : b ∈ (text ⟨q :: rest, last⟩).head? := by
    simp [Piece.text, hblank, hlexeme]
  exact hb.head_cases.2.1 (hcont b hhead (hb.continues_eq.trans hjoin))

end Layout

namespace Lexer

/-- The tokens that are read from a text are those of a well-formed layout of it. -/
theorem tokens_sound {l : Lexer} {ts : List Token} (h : l.tokens = .ok ts) :
    ∃ d : Layout, d.WellFormed ∧ d.text = l.rest ∧
      ts = Layout.tokensFrom l.pos d.pieces d.last := by
  fun_induction tokens l generalizing ts with
  | case1 | case3 => cases h
  | case2 l t l' hnext hkind =>
    cases h
    rcases next_cases hnext with ⟨hblank, rfl⟩ | ⟨p, hp, -, rfl, -⟩
    · exact ⟨⟨[], l.rest⟩, Layout.wellFormed_nil_iff.mpr hblank, rfl, rfl⟩
    · exact absurd hkind hp.kind_ne_eof
  | case4 l t l' hnext hkind ts' hts ih =>
    cases h
    rcases next_cases hnext with ⟨-, rfl⟩ | ⟨p, hp, hrest, rfl, hpos, hcont⟩
    · exact absurd rfl hkind
    · obtain ⟨⟨pieces, last⟩, hd, htext, rfl⟩ := ih hts
      rw [← htext] at hcont hrest
      refine ⟨⟨p :: pieces, last⟩, ?_, ?_, ?_⟩
      · exact Layout.wellFormed_cons_iff.mpr ⟨hp, hd.apart_of_continues hcont, hd⟩
      · rw [Layout.text_cons, hrest]
      · rw [Layout.tokensFrom, hpos]

/-- The tokens of a well-formed layout are read from its text. -/
theorem tokens_complete {d : Layout} (h : d.WellFormed) (pos : Position) :
    (⟨d.text, pos⟩ : Lexer).tokens =
      .ok (Layout.tokensFrom pos d.pieces d.last) := by
  obtain ⟨pieces, last⟩ := d
  induction pieces generalizing pos with
  | nil => exact tokens_of_eof (next_blank (Layout.wellFormed_nil_iff.mp h)) rfl
  | cons p pieces ih =>
    obtain ⟨hp, -, hrest⟩ := Layout.wellFormed_cons_iff.mp h
    rw [Layout.text_cons, tokens_eq_map (next_piece hp h.continues_eq_false) hp.kind_ne_eof,
      ih _ hrest]
    rfl

end Lexer

/-! ## Layouts of a text -/

/-- A text with a piece does not consist of blanks. -/
theorem Layout.WellFormed.text_cons_ne {p : Piece} {pieces : List Piece} {last w : Bytes}
    (h : WellFormed ⟨p :: pieces, last⟩) (hw : ∀ b ∈ w, isBlank b) :
    text ⟨p :: pieces, last⟩ ≠ w := by
  rintro rfl
  obtain ⟨b, rest, hlexeme, hb⟩ := (wellFormed_cons_iff.mp h).1.lexeme.exists_head
  have hblank := hw b (by simp [Piece.text, hlexeme])
  rw [hb.head_cases.1] at hblank
  cases hblank

/-- A text has at most one well-formed layout: a step of the lexer takes off the first piece of
each. -/
theorem Layout.WellFormed.unique {d d' : Layout} (h : d.WellFormed) (h' : d'.WellFormed)
    (htext : d.text = d'.text) : d = d' := by
  obtain ⟨pieces, last⟩ := d
  obtain ⟨pieces', last'⟩ := d'
  induction pieces generalizing pieces' with
  | nil =>
    cases pieces' with
    | nil => rw [show last = last' from htext]
    | cons p' pieces' => exact absurd htext.symm (h'.text_cons_ne (wellFormed_nil_iff.mp h))
  | cons p pieces ih =>
    cases pieces' with
    | nil => exact absurd htext (h.text_cons_ne (wellFormed_nil_iff.mp h'))
    | cons p' pieces' =>
      obtain ⟨hp, -, hrest⟩ := wellFormed_cons_iff.mp h
      obtain ⟨hp', -, hrest'⟩ := wellFormed_cons_iff.mp h'
      have hnext : Lexer.next ⟨_, .start⟩ = _ := Lexer.next_piece hp h.continues_eq_false
      have hnext' : Lexer.next ⟨_, .start⟩ = _ := Lexer.next_piece hp' h'.continues_eq_false
      rw [text_cons, text_cons] at htext
      rw [htext, hnext'] at hnext
      simp only [Except.ok.injEq, Prod.mk.injEq, Lexer.mk.injEq, Piece.token, Token.mk.injEq]
        at hnext
      obtain ⟨⟨hkind, hlexeme, -⟩, hsame, -⟩ := hnext
      have hblank : p.blank = p'.blank := by
        rw [hsame, Piece.text, Piece.text, hlexeme] at htext
        exact List.append_cancel_right (List.append_cancel_right htext)
      have hlayout := ih hrest pieces' hrest' hsame.symm
      cases p
      cases p'
      cases hlayout
      simp_all

/-- A text has tokens exactly if it is encoded and has a well-formed layout, and then they are the
tokens of that. -/
theorem lex_eq_ok_iff {src : Bytes} {ts : List Token} :
    lex src = .ok ts ↔
      src.IsEncoded ∧ ∃ d : Layout, d.WellFormed ∧ d.text = src ∧ d.tokens = ts := by
  rcases Bytes.isEncoded_or_stray src with hsrc | ⟨valid, b, rest, rfl, hvalid, hstray⟩
  · rw [lex_of_isEncoded hsrc]
    constructor
    · intro h
      obtain ⟨d, hd, htext, rfl⟩ := Lexer.tokens_sound h
      exact ⟨hsrc, d, hd, htext, rfl⟩
    · rintro ⟨-, d, hd, rfl, rfl⟩
      exact Lexer.tokens_complete hd .start
  · rw [lex_of_stray hvalid hstray]
    refine iff_of_false nofun fun h => ?_
    exact Bytes.not_isEncoded_of_stray hvalid hstray h.1

/-- **Reading tokens accepts the token language, by longest match.** The tokens of a text are
spellings followed by the end of the input, which is empty. A text has tokens with given spellings
exactly if it is encoded and some well-formed layout of it has these spellings; and no text has two
well-formed layouts. -/
theorem lex_accepts_layouts (src : Bytes) :
    (∀ ts, lex src = .ok ts →
      ∃ ls, ts.map Token.spelling = ls ++ [(.eof, [])] ∧ ∀ l ∈ ls, l.1 ≠ .eof) ∧
    (∀ ls, (∃ ts, lex src = .ok ts ∧ ts.map Token.spelling = ls ++ [(.eof, [])]) ↔
      src.IsEncoded ∧ ∃ d : Layout, d.WellFormed ∧ d.text = src ∧ d.spellings = ls) ∧
    (∀ d d' : Layout, d.WellFormed → d'.WellFormed → d.text = src → d'.text = src → d = d') := by
  refine ⟨fun ts h => ?_, fun ls => ⟨?_, ?_⟩, fun d d' hd hd' htext htext' => ?_⟩
  · obtain ⟨-, d, hd, -, rfl⟩ := lex_eq_ok_iff.mp h
    refine ⟨d.spellings, Layout.map_spelling_tokensFrom .start, fun l hl => ?_⟩
    obtain ⟨p, hp, rfl⟩ := List.mem_map.mp hl
    exact (hd.pieces p hp).kind_ne_eof
  · rintro ⟨ts, hts, hls⟩
    obtain ⟨hsrc, d, hd, htext, rfl⟩ := lex_eq_ok_iff.mp hts
    refine ⟨hsrc, d, hd, htext, ?_⟩
    exact List.append_cancel_right ((Layout.map_spelling_tokensFrom .start).symm.trans hls)
  · rintro ⟨hsrc, d, hd, htext, rfl⟩
    exact ⟨d.tokens, lex_eq_ok_iff.mpr ⟨hsrc, d, hd, htext, rfl⟩,
      Layout.map_spelling_tokensFrom .start⟩
  · exact hd.unique hd' (htext.trans htext'.symm)

end Arrowlet
