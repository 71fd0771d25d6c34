import Arrowlet.Proofs.CText.CToken
import Arrowlet.Proofs.CText.Injective

/-!
# C reads an expression as the same tokens

Punctuators such as `--`, numbers such as `1e-5` and comments may take more than one token of an
expression if these stand side by side. In the C text of an expression they do not: between two
tokens there is a space, unless the first opens or the second closes a group (`Piece.Parted`), and
no longer token of C holds a space or a parenthesis. So C reads the text as the lexemes that the
expression flattens to (`Expr.IsSpelled.tokens_cText`), and these are the lexemes of the tokens that
derive it.
-/

namespace Arrowlet

open Lexeme Grammar CToken

/-! ## Pieces of an expression -/

namespace Piece

/-- A piece of the C text of an expression, with a space or nothing in front. -/
structure InExpr (p : Piece) : Prop where
  wellFormed : p.WellFormed
  kind : p.kind ∈ exprKinds
  blank : p.blank = [] ∨ p.blank = [Bytes.space]

/-- There is a space between two pieces, or the first opens or the second closes a group. -/
def Parted (p q : Piece) : Prop := q.blank ≠ [] ∨ p.kind = .lparen ∨ q.kind = .rparen

variable {p q : Piece} {pieces : List Piece}

/-- A piece of a kind with a symbol is spelled like that. -/
theorem WellFormed.lexeme_eq {kind : Kind} (h : p.WellFormed) (hkind : p.kind = kind)
    (hsymbol : kind.symbol ≠ []) : p.lexeme = kind.symbol :=
  (isSpelling_iff_eq_symbol hsymbol).mp (hkind ▸ h.lexeme)

/-- What follows a piece begins with a space or a parenthesis, unless the piece opens a group. -/
theorem InExpr.parting (hpieces : ∀ q ∈ pieces, q.InExpr) (h : ∀ q ∈ pieces.head?, p.Parted q) :
    p.kind = .lparen ∨ ∀ b ∈ (pieces.flatMap text).head?, isParting b := by
  cases pieces with
  | nil => exact .inr (by simp)
  | cons q pieces =>
    have hq := hpieces q (.head _)
    have hspace : q.blank = [Bytes.space] →
        ∀ b ∈ ((q :: pieces).flatMap text).head?, isParting b := by
      intro hblank b hb
      rw [List.flatMap_cons, text, hblank] at hb
      cases hb
      decide
    rcases h q rfl with hblank | hopen | hclose
    · exact .inr (hspace (hq.blank.resolve_left hblank))
    · exact .inl hopen
    · rcases hq.blank with hblank | hblank
      · refine .inr fun b hb => ?_
        rw [List.flatMap_cons, text, hblank, hq.wellFormed.lexeme_eq hclose (by decide)] at hb
        cases hb
        decide
      · exact .inr (hspace hblank)

/-- C reads the pieces of an expression one by one. -/
theorem tokens_flatMap_text (hpieces : ∀ p ∈ pieces, p.InExpr) (hparted : pieces.IsChain Parted) :
    tokens (pieces.flatMap text) = pieces.map lexeme := by
  induction pieces with
  | nil => exact tokens_nil
  | cons p pieces ih =>
    obtain ⟨hp, hpieces⟩ := List.forall_mem_cons.mp hpieces
    obtain ⟨hhead, hparted⟩ := List.isChain_cons.mp hparted
    have hlexeme := hp.wellFormed.lexeme
    obtain ⟨b, w, hw, hspace, hslash⟩ := exists_head_of_isSpelling hp.kind hlexeme
    have hparting := InExpr.parting hpieces hhead
    have hskip : ∀ t, tokens (p.blank ++ t) = tokens t := by
      intro t
      rcases hp.blank with hblank | hblank
      · rw [hblank, List.nil_append]
      · rw [hblank, List.singleton_append, tokens_space (by decide)]
    have hcomment : afterComment? (p.lexeme ++ pieces.flatMap text) = none := by
      by_cases hb : b = 0x2f
      · have hkind := hslash hb
        rw [hp.wellFormed.lexeme_eq hkind (by decide)]
        exact afterComment?_slash (hparting.resolve_left (by simp [hkind]))
      · rw [hw, List.cons_append]
        exact afterComment?_of_ne hb _
    have hlongest : ∀ x ≠ [], x <+: pieces.flatMap text → isToken (p.lexeme ++ x) = false := by
      intro x hx hprefix
      obtain ⟨c, x, rfl⟩ := List.exists_cons_of_ne_nil hx
      obtain ⟨rest, hrest⟩ := hprefix
      have hlength : 2 ≤ (p.lexeme ++ c :: x).length := by
        simp only [hw, List.length_append, List.length_cons]
        omega
      rcases hparting with hopen | hparting
      · have hmem : 0x28 ∈ p.lexeme := by
          rw [hp.wellFormed.lexeme_eq hopen (by decide)]
          decide
        exact isToken_eq_false hlength (by decide) (List.mem_append_left _ hmem)
      · exact isToken_eq_false hlength (hparting c (by simp [← hrest])) (by simp)
    rw [List.flatMap_cons, text, List.append_assoc, hskip, List.map_cons, ← ih hpieces hparted]
    refine tokens_append (isToken_of_isSpelling hp.kind hlexeme) (fun c hc => ?_) hcomment hlongest
    rw [hw] at hc
    cases hc
    exact hspace

end Piece

/-! ## The C text of an expression -/

namespace Expr

variable {e : Expr} {text : Bytes}

/-- The blanks in front of an expression are those of its first piece. -/
theorem IsComplete.exists_pieces_eq_cons (h : e.IsComplete) (blank : Bytes) :
    ∃ p rest, e.pieces blank = p :: rest ∧ p.blank = blank := by
  induction e with
  | number | name | group => exact ⟨_, _, rfl, rfl⟩
  | binary op left right ihl _ =>
    obtain ⟨p, rest, hpieces, hblank⟩ := ihl h.2.1
    exact ⟨p, _, by rw [pieces, hpieces, List.cons_append], hblank⟩
  | missing | unknown => exact h.elim

/-- The pieces of a spelled expression, with a space or nothing in front, are pieces of an
expression. -/
theorem IsSpelled.inExpr_of_mem_pieces (h : e.IsSpelled) {blank : Bytes}
    (hblank : blank = [] ∨ blank = [Bytes.space]) : ∀ p ∈ e.pieces blank, p.InExpr := by
  have hspace : ∀ b ∈ [Bytes.space], isBlank b := List.all_eq_true.mp (by decide)
  have hblanks : ∀ b ∈ blank, isBlank b := by
    rcases hblank with rfl | rfl
    · exact List.forall_mem_nil _
    · exact hspace
  induction e generalizing blank with
  | number text | name text =>
    exact List.forall_mem_singleton.mpr ⟨⟨hblanks, h⟩, by simp [exprKinds], hblank⟩
  | binary op left right ihl ihr =>
    obtain ⟨hop, hl, hr⟩ := h
    have hsymbol := Kind.isSpelling_symbol_of_isOperator hop
    have hkind : op ∈ exprKinds := by cases op <;> first | decide | cases hop
    rw [pieces, List.forall_mem_append, List.forall_mem_cons]
    exact ⟨ihl hl hblank hblanks, ⟨⟨hspace, hsymbol⟩, hkind, .inr rfl⟩, ihr hr (.inr rfl) hspace⟩
  | group inner ih =>
    have hnil : ∀ b ∈ ([] : Bytes), isBlank b := List.forall_mem_nil _
    rw [pieces, List.forall_mem_append, List.forall_mem_cons, List.forall_mem_singleton]
    exact ⟨⟨⟨⟨hblanks, rfl⟩, by simp [exprKinds], hblank⟩, ih h (.inl rfl) hnil⟩,
      ⟨hnil, rfl⟩, by simp [exprKinds], .inl rfl⟩
  | missing | unknown => exact h.elim

/-- The pieces of an expression are parted. -/
theorem IsComplete.isChain_parted (h : e.IsComplete) (blank : Bytes) :
    (e.pieces blank).IsChain Piece.Parted := by
  induction e generalizing blank with
  | number | name => exact .singleton _
  | binary op left right ihl ihr =>
    rw [pieces, List.isChain_append, List.isChain_cons]
    refine ⟨ihl h.2.1 blank, ⟨fun q hq => ?_, ihr h.2.2 _⟩, fun p _ q hq => ?_⟩
    · obtain ⟨p, rest, hpieces, hblank⟩ := h.2.2.exists_pieces_eq_cons [Bytes.space]
      rw [hpieces] at hq
      cases hq
      exact .inl (by simp [hblank])
    · cases hq
      exact .inl (by simp)
  | group inner ih =>
    rw [pieces, List.cons_append, List.isChain_cons, List.isChain_append]
    refine ⟨fun q _ => .inr (.inl rfl), ih h _, .singleton _, fun p _ q hq => ?_⟩
    cases hq
    exact .inr (.inr rfl)
  | missing | unknown => exact h.elim

/-- C reads the C text of an expression as the lexemes that the expression flattens to. -/
theorem IsSpelled.tokens_cText (h : e.IsSpelled) (htext : CText.expr e = .ok text) :
    CToken.tokens text = e.flatten.map Prod.snd := by
  have hcomplete := (isSpelled_iff.mp h).1
  have hpieces := flatMap_text_pieces htext []
  rw [List.nil_append] at hpieces
  rw [← hpieces, Piece.tokens_flatMap_text (h.inExpr_of_mem_pieces (.inl rfl))
    (hcomplete.isChain_parted []), ← map_spelling_pieces [], List.map_map]
  rfl

/-- The C text of an expression has the tokens that the expression flattens to. -/
theorem IsSpelled.lex_cText (h : e.IsSpelled) (htext : CText.expr e = .ok text) :
    ∃ ts, lex text = .ok ts ∧ ts.map Token.spelling = e.flatten ++ [(.eof, [])] := by
  have hcomplete := (isSpelled_iff.mp h).1
  have hpieces := flatMap_text_pieces htext []
  have hencoded : text.IsEncoded :=
    Bytes.isEncoded_of_ascii fun b hb => CText.toNat_lt_of_isPlain (h.isPlain htext b hb)
  have hwellFormed : Layout.WellFormed ⟨e.pieces [], []⟩ :=
    ⟨h.wellFormed_pieces (by simp), hcomplete.isChain_pieces [], by simp⟩
  refine ⟨_, lex_eq_ok_iff.mpr ⟨hencoded, _, hwellFormed, ?_, rfl⟩, ?_⟩
  · rw [Layout.text, hpieces, List.nil_append, List.append_nil]
  · rw [Layout.tokens, Layout.map_spelling_tokensFrom, map_spelling_pieces]

end Expr

/-! ## The tokens that an expression is read from -/

/-- The tokens `us` stand side by side in `ts` and derive `e`. -/
def Grammar.ReadsFrom (ts us : List Token) (e : Expr) : Prop :=
  us <:+: ts ∧ ∃ level, Expression level us e

/-- What is read from tokens is read from any list that these stand in. -/
theorem Grammar.ReadsFrom.mono {ts us vs : List Token} {e : Expr} (h : ReadsFrom us vs e)
    (hus : us <:+: ts) : ReadsFrom ts vs e :=
  ⟨h.1.trans hus, h.2⟩

/-- Every part of a derived expression is read from some of its tokens. -/
theorem Grammar.Expression.exists_readsFrom {level : Level} {ts : List Token} {e : Expr}
    (h : Expression level ts e) : ∀ f ∈ e.parts, ∃ us, ReadsFrom ts us f := by
  have hself : ∃ us, ReadsFrom ts us e := ⟨ts, List.infix_rfl, level, h⟩
  induction h with
  | number | name => exact List.forall_mem_singleton.mpr hself
  | @group opening closing ts e ho he hc ih =>
    have hinner : ts <:+: opening :: ts ++ [closing] := ⟨[opening], [closing], rfl⟩
    rw [Expr.parts, List.forall_mem_cons]
    refine ⟨hself, fun f hf => ?_⟩
    obtain ⟨us, hus⟩ := ih ⟨ts, List.infix_rfl, _, he⟩ f hf
    exact ⟨us, hus.mono hinner⟩
  | ofOperand he ih | ofProduct he ih => exact ih ⟨_, List.infix_rfl, _, he⟩
  | @multiply op ts us left right hl ho hr ihl ihr | @add op ts us left right hl ho hr ihl ihr =>
    have hleft : ts <:+: ts ++ op :: us := List.infix_append_of_infix_left List.infix_rfl
    have hright : us <:+: ts ++ op :: us := ⟨ts ++ [op], [], by simp⟩
    rw [Expr.parts, List.forall_mem_cons, List.forall_mem_append]
    refine ⟨hself, fun f hf => ?_, fun f hf => ?_⟩
    · obtain ⟨vs, hvs⟩ := ihl ⟨ts, List.infix_rfl, _, hl⟩ f hf
      exact ⟨vs, hvs.mono hleft⟩
    · obtain ⟨vs, hvs⟩ := ihr ⟨us, List.infix_rfl, _, hr⟩ f hf
      exact ⟨vs, hvs.mono hright⟩

/-- The expressions of a derived statement are derived from some of its tokens. -/
theorem Grammar.Statement.exists_infix {ts : List Token} {s : Stmt} (h : Statement ts s) :
    ∀ e ∈ s.exprs, ∃ us, us <:+: ts ∧ Expression .sum us e := by
  cases h with
  | @define keyword name arrow stop us _ _ _ _ he _ =>
    exact List.forall_mem_singleton.mpr ⟨us, ⟨[keyword, name, arrow], [stop], rfl⟩, he⟩
  | @write keyword opening format comma closing stop us _ _ _ _ _ he _ _ =>
    exact List.forall_mem_singleton.mpr
      ⟨us, ⟨[keyword, opening, format, comma], [closing, stop], rfl⟩, he⟩
  | read => exact List.forall_mem_nil _
  | @eval stop us _ he _ => exact List.forall_mem_singleton.mpr ⟨us, ⟨[], [stop], rfl⟩, he⟩

theorem Grammar.Statement.exists_readsFrom {ts : List Token} {s : Stmt} (h : Statement ts s) :
    ∀ e ∈ s.exprs.flatMap Expr.parts, ∃ us, ReadsFrom ts us e := by
  intro e he
  obtain ⟨value, hvalue, hpart⟩ := List.mem_flatMap.mp he
  obtain ⟨us, hus, hexpr⟩ := h.exists_infix value hvalue
  obtain ⟨vs, hvs⟩ := hexpr.exists_readsFrom e hpart
  exact ⟨vs, hvs.mono hus⟩

/-- Every expression of a derived program is read from some of its tokens. -/
theorem Grammar.Program.exists_readsFrom {ts : List Token} {p : Arrowlet.Program}
    (h : Grammar.Program ts p) : ∀ e ∈ p.exprs, ∃ us, ReadsFrom ts us e := by
  induction h with
  | @single ts s hs =>
    rw [Program.exprs, List.flatMap_singleton]
    exact hs.exists_readsFrom
  | @cons ts us s p hs _ ih =>
    rw [Program.exprs, List.flatMap_cons, List.forall_mem_append]
    refine ⟨fun e he => ?_, fun e he => ?_⟩
    · obtain ⟨vs, hvs⟩ := hs.exists_readsFrom e he
      exact ⟨vs, hvs.mono (List.prefix_append ts us).isInfix⟩
    · obtain ⟨vs, hvs⟩ := ih e he
      exact ⟨vs, hvs.mono (List.suffix_append ts us).isInfix⟩

/-- A token that is read from a text is spelled as its kind is, unless it is the end of the
input. -/
theorem isSpelling_of_lex {src : Bytes} {ts : List Token} (h : lex src = .ok ts) {t : Token}
    (ht : t ∈ ts) (hkind : t.kind ≠ .eof) : IsSpelling t.kind t.lexeme := by
  obtain ⟨-, d, hd, -, rfl⟩ := lex_eq_ok_iff.mp h
  rcases Layout.mem_tokensFrom ht with rfl | ⟨before, p, behind, hpieces, rfl⟩
  · exact absurd rfl hkind
  · exact (hd.pieces p (by simp [hpieces])).lexeme

/-- The content of a spelled token is its spelling. -/
theorem Token.content_eq_spelling {t : Token} (h : IsSpelling t.kind t.lexeme) :
    t.content = t.spelling := by
  by_cases hsymbol : t.kind.symbol = []
  · exact content_of_lexeme hsymbol rfl
  · rw [content_of_symbol hsymbol rfl, Kind.fixed, spelling,
      (isSpelling_iff_eq_symbol hsymbol).mp h]

/-- An expression is spelled like the tokens of a text that it is read from. -/
theorem Grammar.ReadsFrom.spelling_eq {src : Bytes} {ts us : List Token} {e : Expr}
    (hts : lex src = .ok ts) (h : ReadsFrom ts us e) :
    e.IsSpelled ∧ us.map Token.spelling = e.flatten := by
  obtain ⟨hus, level, hexpr⟩ := h
  obtain ⟨hcomplete, -, -, hflat⟩ := hexpr.flatten_eq
  have hspelling : ∀ t ∈ us, IsSpelling t.kind t.lexeme := fun t ht =>
    isSpelling_of_lex hts (hus.subset ht) (hexpr.kind_ne_eof t ht)
  have hmap : us.map Token.spelling = e.flatten := by
    rw [← hflat]
    exact List.map_congr_left fun t ht => (Token.content_eq_spelling (hspelling t ht)).symm
  refine ⟨Expr.isSpelled_iff.mpr ⟨hcomplete, fun l hl => ?_⟩, hmap⟩
  rw [← hmap] at hl
  obtain ⟨t, ht, rfl⟩ := List.mem_map.mp hl
  exact hspelling t ht

/-- **C reads an expression as the tokens that it was read from.** Every expression of a program
that compiles was read from tokens that stand side by side in the source, and wherever it was, C
reads its C text as the lexemes of these tokens. The lexer reads the text as the same tokens. -/
theorem c_reads_expr_tokens (src code : Bytes) (h : compile src = .ok code) :
    ∃ ts p, lex src = .ok ts ∧ parse ts = .ok p ∧ p.toC = .ok code ∧
      ∀ e ∈ p.exprs, (∃ us, ReadsFrom ts us e) ∧
        ∀ us, ReadsFrom ts us e → ∃ text vs, CText.expr e = .ok text ∧ lex text = .ok vs ∧
          CToken.tokens text = us.map Token.lexeme ∧
          vs.map Token.spelling = us.map Token.spelling ++ [(.eof, [])] := by
  obtain ⟨p, ⟨ts, hts, hp⟩, htoC⟩ := compile_eq_ok_iff.mp h
  refine ⟨ts, p, hts, hp, htoC, fun e he => ⟨?_, fun us hus => ?_⟩⟩
  · obtain ⟨us, hus⟩ := (parse_eq_ok_iff.mp hp).exists_readsFrom e he
    exact ⟨us, hus.mono (List.takeWhile_prefix _).isInfix⟩
  · obtain ⟨hspelled, hspelling⟩ := hus.spelling_eq hts
    obtain ⟨text, htext⟩ := (Expr.isSpelled_iff.mp hspelled).1.exists_cText
    obtain ⟨vs, hvs, hflat⟩ := hspelled.lex_cText htext
    refine ⟨text, vs, htext, hvs, ?_, by rw [hflat, hspelling]⟩
    rw [hspelled.tokens_cText htext, ← hspelling, List.map_map]
    rfl

-- Side by side, operators may be a longer punctuator or begin a comment.
example : CToken.tokens "a--b + c/*d" = ["a", "--", "b", "+", "c"] := by decide +kernel

/-- The tree of `(a-1.5)/b`. -/
def quotient : Expr :=
  .binary .slash (.group (.binary .minus (.name "a") (.number "1.5"))) (.name "b")

/-- The tokens of `DEF x <- (a-1.5)/b;`. -/
def quotientTokens : List Token :=
  [⟨.define, "DEF", ⟨1, 1⟩⟩, ⟨.identifier, "x", ⟨1, 5⟩⟩, ⟨.arrow, "<-", ⟨1, 7⟩⟩,
    ⟨.lparen, "(", ⟨1, 10⟩⟩, ⟨.identifier, "a", ⟨1, 11⟩⟩, ⟨.minus, "-", ⟨1, 12⟩⟩,
    ⟨.number, "1.5", ⟨1, 13⟩⟩, ⟨.rparen, ")", ⟨1, 16⟩⟩, ⟨.slash, "/", ⟨1, 17⟩⟩,
    ⟨.identifier, "b", ⟨1, 18⟩⟩, ⟨.semicolon, ";", ⟨1, 19⟩⟩, ⟨.eof, [], ⟨1, 20⟩⟩]

/-- C reads the tokens of the quotient, although blanks are put around its operators. -/
theorem c_reads_expr_tokens_quotient :
    lex "DEF x <- (a-1.5)/b;" = .ok quotientTokens ∧
    CText.expr quotient = .ok "(a - 1.5) / b" ∧
    ∃ us, ReadsFrom quotientTokens us quotient ∧
      CToken.tokens "(a - 1.5) / b" = us.map Token.lexeme := by
  have hcompile : compile "DEF x <- (a-1.5)/b;" =
      .ok (CText.header ++ "double x = (a - 1.5) / b;\n" ++ CText.footer) := by decide +kernel
  have hlex : lex "DEF x <- (a-1.5)/b;" = .ok quotientTokens := by decide +kernel
  have hparse : parse quotientTokens = .ok [.define "x" quotient] := by decide +kernel
  obtain ⟨ts, p, hts, hp, -, hexprs⟩ := c_reads_expr_tokens _ _ hcompile
  cases hlex.symm.trans hts
  cases hparse.symm.trans hp
  obtain ⟨⟨us, hus⟩, htokens⟩ := hexprs quotient (.head _)
  obtain ⟨text, vs, htext, -, heq, -⟩ := htokens us hus
  have htext' : CText.expr quotient = .ok "(a - 1.5) / b" := rfl
  cases htext.symm.trans htext'
  exact ⟨hlex, htext', us, hus, heq⟩

end Arrowlet
