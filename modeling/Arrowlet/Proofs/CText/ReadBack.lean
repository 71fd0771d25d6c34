import Arrowlet.CText
import Arrowlet.Proofs.Program.Shape
import Arrowlet.Proofs.Token.Layout

/-!
# The C text of an expression reads back

The C text of an expression has no parentheses but those of the tree, so it is the layout of the
tokens that the expression flattens to (`Expr.pieces`): a space stands around every operator, and
nothing elsewhere. Reading it again therefore gives the flattened tokens, and these give the
expression back exactly if it is shaped.

`expr_reads_back` puts this together, and adds that the expressions of every program that is read
from a text are shaped and spelled. So what is written as C has one reading as a tree, the tree it
was written from.
-/

namespace Arrowlet

open Lexeme

/-! ## Programs that are read from a text -/

/-- The tokens of a text parse as a program. -/
def Reads (src : Bytes) (p : Program) : Prop := ∃ ts, lex src = .ok ts ∧ parse ts = .ok p

/-- A text is read as at most one program. -/
theorem Reads.unique {src : Bytes} {p q : Program} (hp : Reads src p) (hq : Reads src q) :
    p = q := by
  obtain ⟨ts, hts, hp⟩ := hp
  obtain ⟨us, hus, hq⟩ := hq
  cases hts.symm.trans hus
  cases hp.symm.trans hq
  rfl

/-- The content of a token of a well-formed piece is the spelling of the piece. -/
theorem Piece.WellFormed.content_token {p : Piece} (h : p.WellFormed) (pos : Position) :
    (p.token pos).content = p.spelling := by
  rw [Token.content, Piece.spelling]
  by_cases hsymbol : p.kind.symbol = []
  · rw [Piece.token, if_pos hsymbol]
  · rw [Piece.token, if_neg hsymbol, (isSpelling_iff_eq_symbol hsymbol).mp h.lexeme]

/-- The tokens of a layout before the end are those of its pieces. -/
theorem Layout.beforeEnd_tokensFrom_cons {p : Piece} (hp : p.WellFormed) (pieces : List Piece)
    (last : Bytes) (pos : Position) :
    beforeEnd (tokensFrom pos (p :: pieces) last) =
      p.token pos :: beforeEnd (tokensFrom (pos.after p.text) pieces last) := by
  have hkind : (p.token pos).kind ≠ .eof := hp.kind_ne_eof
  simp [beforeEnd, tokensFrom, hkind]

/-- The contents of the tokens of well-formed pieces are the spellings of the pieces. -/
theorem Layout.content_tokensFrom {pieces : List Piece} {last : Bytes}
    (h : ∀ p ∈ pieces, p.WellFormed) (pos : Position) :
    (beforeEnd (tokensFrom pos pieces last)).map Token.content = pieces.map Piece.spelling := by
  induction pieces generalizing pos with
  | nil => rfl
  | cons p pieces ih =>
    obtain ⟨hp, hpieces⟩ := List.forall_mem_cons.mp h
    rw [beforeEnd_tokensFrom_cons hp, List.map_cons, List.map_cons, hp.content_token, ih hpieces]

/-- The text of a well-formed layout is read as the complete and shaped program that flattens to the
spellings of the layout. -/
theorem Layout.WellFormed.reads_iff {d : Layout} (h : d.WellFormed) (henc : d.text.IsEncoded)
    {p : Program} :
    Reads d.text p ↔
      p ≠ [] ∧ (∀ s ∈ p, s.IsComplete ∧ s.IsShaped) ∧ d.spellings = p.flatten := by
  have hcontent : (beforeEnd d.tokens).map Token.content = d.spellings :=
    content_tokensFrom h.pieces .start
  have hlex : lex d.text = .ok d.tokens := lex_eq_ok_iff.mpr ⟨henc, d, h, rfl, rfl⟩
  rw [← hcontent, ← parse_eq_ok_iff_flatten]
  constructor
  · rintro ⟨ts, hts, hp⟩
    cases hlex.symm.trans hts
    exact hp
  · exact fun hp => ⟨d.tokens, hlex, hp⟩

/-! ## Spelled expressions -/

/-- The operators are marks. -/
theorem Kind.mem_marks_of_isOperator {kind : Kind} (h : kind.isOperator) : kind ∈ marks := by
  cases kind <;> first | decide | cases h

/-- The operators are spelled like their symbols. -/
theorem Kind.isSpelling_symbol_of_isOperator {kind : Kind} (h : kind.isOperator) :
    IsSpelling kind kind.symbol :=
  (isSpelling_iff_eq_symbol (symbol_ne_nil_of_isOperator h)).mpr rfl

/-- The bytes of the C text of expressions. -/
def CText.isPlain (b : UInt8) : Bool := isWordPart b || b ∈ (" .()+-*/" : Bytes)

/-- Plain bytes are below 128. -/
theorem CText.toNat_lt_of_isPlain {b : UInt8} (h : isPlain b) : b.toNat < 128 := by
  rcases Bool.or_eq_true_iff.mp h with h | h
  · rw [isWordPart_iff, isWordStart_iff, isDigit_iff] at h
    omega
  · have hmarks : (" .()+-*/" : Bytes).all (·.toNat < 128) := by decide
    exact of_decide_eq_true (List.all_eq_true.mp hmarks b (of_decide_eq_true h))

namespace Expr

/-- Numbers and names are spelled as tokens are, the operators are arithmetic, and no node is
missing or unknown. -/
def IsSpelled : Expr → Prop
  | number text => IsSpelling .number text
  | name text => IsSpelling .identifier text
  | binary op left right => op.isOperator ∧ left.IsSpelled ∧ right.IsSpelled
  | group inner => inner.IsSpelled
  | missing | unknown _ _ => False

/-- An expression is spelled exactly if it is complete and flattens to spellings. -/
theorem isSpelled_iff {e : Expr} :
    e.IsSpelled ↔ e.IsComplete ∧ ∀ l ∈ e.flatten, IsSpelling l.1 l.2 := by
  induction e with
  | number text | name text => simp [IsSpelled, IsComplete, flatten]
  | binary op left right ihl ihr =>
    have hop : op.isOperator → IsSpelling op op.symbol := Kind.isSpelling_symbol_of_isOperator
    simp only [IsSpelled, IsComplete, flatten, Kind.fixed, ihl, ihr, List.forall_mem_append,
      List.forall_mem_cons]
    grind
  | group inner ih =>
    have hparens : IsSpelling .lparen Kind.lparen.symbol ∧ IsSpelling .rparen Kind.rparen.symbol :=
      ⟨rfl, rfl⟩
    simp only [IsSpelled, IsComplete, flatten, Kind.fixed, ih, List.cons_append,
      List.forall_mem_append, List.forall_mem_cons]
    grind
  | missing | unknown _ _ => simp [IsSpelled, IsComplete]

/-- The expression and all expressions inside it. -/
def parts : Expr → List Expr
  | binary op left right => binary op left right :: (left.parts ++ right.parts)
  | group inner => group inner :: inner.parts
  | e => [e]

/-- The pieces of the C text of an expression, with blanks in front of the first. -/
def pieces (blank : Bytes) : Expr → List Piece
  | number text => [⟨blank, .number, text⟩]
  | name text => [⟨blank, .identifier, text⟩]
  | binary op left right => left.pieces blank ++
      ⟨[Bytes.space], op, op.symbol⟩ :: right.pieces [Bytes.space]
  | group inner => ⟨blank, .lparen, Kind.lparen.symbol⟩ :: inner.pieces [] ++
      [⟨[], .rparen, Kind.rparen.symbol⟩]
  | missing | unknown _ _ => []

/-- The pieces of an expression spell what it flattens to. -/
theorem map_spelling_pieces (blank : Bytes) (e : Expr) :
    (e.pieces blank).map Piece.spelling = e.flatten := by
  induction e generalizing blank with
  | number | name | missing | unknown => rfl
  | binary op left right ihl ihr =>
    rw [pieces, List.map_append, List.map_cons, ihl, ihr]
    rfl
  | group inner ih =>
    rw [pieces, List.map_append, List.map_cons, ih]
    rfl

/-- The pieces of an expression make up its C text, after the blanks in front. -/
theorem flatMap_text_pieces {e : Expr} {text : Bytes} (h : CText.expr e = .ok text)
    (blank : Bytes) : (e.pieces blank).flatMap Piece.text = blank ++ text := by
  induction e generalizing blank text with
  | number | name =>
    cases h
    simp [pieces, Piece.text]
  | binary op left right ihl ihr =>
    rw [CText.expr] at h
    split at h
    · obtain ⟨l, hl, h⟩ := bind_eq_ok_iff.mp h
      obtain ⟨r, hr, h⟩ := bind_eq_ok_iff.mp h
      cases h
      rw [pieces, List.flatMap_append, List.flatMap_cons, ihl hl, ihr hr]
      simp only [Piece.text, List.append_assoc]
      rfl
    · cases h
  | group inner ih =>
    obtain ⟨text, htext, h⟩ := bind_eq_ok_iff.mp h
    cases h
    rw [pieces, List.flatMap_append, List.flatMap_cons, ih htext, List.flatMap_singleton]
    simp [Piece.text]
    rfl
  | missing | unknown => cases h

/-- A complete expression has a C text. -/
theorem IsComplete.exists_cText {e : Expr} (h : e.IsComplete) :
    ∃ text, CText.expr e = .ok text := by
  induction e with
  | number text | name text => exact ⟨text, rfl⟩
  | binary op left right ihl ihr =>
    obtain ⟨l, hl⟩ := ihl h.2.1
    obtain ⟨r, hr⟩ := ihr h.2.2
    exact ⟨_, (if_pos h.1).trans (bind_eq_ok_iff.mpr ⟨l, hl, bind_eq_ok_iff.mpr ⟨r, hr, rfl⟩⟩)⟩
  | group inner ih =>
    obtain ⟨text, htext⟩ := ih h
    exact ⟨_, bind_eq_ok_iff.mpr ⟨text, htext, rfl⟩⟩
  | missing | unknown => exact h.elim

/-- The pieces of a spelled expression are well formed. -/
theorem IsSpelled.wellFormed_pieces {e : Expr} (h : e.IsSpelled) {blank : Bytes}
    (hblank : ∀ b ∈ blank, isBlank b) : ∀ p ∈ e.pieces blank, p.WellFormed := by
  have hspace : ∀ b ∈ [Bytes.space], isBlank b := List.all_eq_true.mp (by decide)
  induction e generalizing blank with
  | number text | name text =>
    intro p hp
    rw [List.mem_singleton.mp hp]
    exact ⟨hblank, h⟩
  | binary op left right ihl ihr =>
    obtain ⟨hop, hl, hr⟩ := h
    simp only [pieces, List.forall_mem_append, List.forall_mem_cons]
    exact ⟨ihl hl hblank, ⟨hspace, Kind.isSpelling_symbol_of_isOperator hop⟩, ihr hr hspace⟩
  | group inner ih =>
    simp only [pieces, List.forall_mem_append, List.forall_mem_cons, List.cons_append]
    exact ⟨⟨hblank, rfl⟩, ih h (by simp), ⟨by simp, rfl⟩, by simp⟩
  | missing | unknown => exact h.elim

/-- Blanks stand between the pieces of a complete expression where they have to. -/
theorem IsComplete.isChain_pieces {e : Expr} (h : e.IsComplete) (blank : Bytes) :
    (e.pieces blank).IsChain Piece.Apart := by
  induction e generalizing blank with
  | number | name => exact .singleton _
  | binary op left right ihl ihr =>
    obtain ⟨hop, hl, hr⟩ := h
    have hmark := Kind.mem_marks_of_isOperator hop
    rw [pieces, List.isChain_append, List.isChain_cons]
    refine ⟨ihl hl blank, ⟨fun q _ => ?_, ihr hr _⟩, fun p _ q hq => ?_⟩
    · exact Piece.apart_of_mem_marks (.inl hmark)
    · cases hq
      exact Piece.apart_of_mem_marks (.inr hmark)
  | group inner ih =>
    rw [pieces, List.cons_append, List.isChain_cons, List.isChain_append]
    refine ⟨fun q _ => ?_, ih h _, .singleton _, fun p _ q hq => ?_⟩
    · exact Piece.apart_of_mem_marks (.inl (by simp [marks]))
    · cases hq
      exact Piece.apart_of_mem_marks (.inr (by simp [marks]))
  | missing | unknown => exact h.elim

/-- The C text of a spelled expression is plain. -/
theorem IsSpelled.isPlain {e : Expr} (h : e.IsSpelled) {text : Bytes}
    (htext : CText.expr e = .ok text) : ∀ b ∈ text, CText.isPlain b := by
  induction e generalizing text with
  | number w =>
    cases htext
    intro b hb
    rcases IsNumber.isDigit_or_eq_dot h b hb with hdigit | rfl
    · simp [CText.isPlain, isWordPart_iff.mpr (.inr hdigit)]
    · decide
  | name w =>
    cases htext
    intro b hb
    simp [CText.isPlain, h.1.isWordPart b hb]
  | binary op left right ihl ihr =>
    obtain ⟨hop, hleft, hright⟩ := h
    obtain ⟨l, hl, htext⟩ := bind_eq_ok_iff.mp ((if_pos hop).symm.trans htext)
    obtain ⟨r, hr, htext⟩ := bind_eq_ok_iff.mp htext
    cases htext
    have hsymbol : ∀ b ∈ " " ++ op.symbol ++ " ", CText.isPlain b :=
      List.all_eq_true.mp (by cases op <;> first | decide | cases hop)
    simp only [List.forall_mem_append] at hsymbol ⊢
    exact ⟨ihl hleft hl, hsymbol, ihr hright hr⟩
  | group inner ih =>
    obtain ⟨text, hinner, htext⟩ := bind_eq_ok_iff.mp htext
    cases htext
    simp only [List.forall_mem_append]
    exact ⟨⟨List.all_eq_true.mp (by decide), ih h hinner⟩, List.all_eq_true.mp (by decide)⟩
  | missing | unknown => exact h.elim

/-- The layout of the C text of an expression and a semicolon. -/
def layout (e : Expr) : Layout := ⟨e.pieces [] ++ [⟨[], .semicolon, Kind.semicolon.symbol⟩], []⟩

theorem text_layout {e : Expr} {text : Bytes} (h : CText.expr e = .ok text) :
    e.layout.text = text ++ ";" := by
  rw [layout, Layout.text, List.flatMap_append, flatMap_text_pieces h, List.append_nil]
  rfl

theorem spellings_layout (e : Expr) : e.layout.spellings = (Stmt.eval e).flatten := by
  rw [layout, Layout.spellings, List.map_append, map_spelling_pieces]
  rfl

theorem IsSpelled.wellFormed_layout {e : Expr} (h : e.IsSpelled) : e.layout.WellFormed := by
  refine ⟨List.forall_mem_append.mpr ⟨h.wellFormed_pieces (by simp), ?_⟩, ?_, by simp [layout]⟩
  · intro p hp
    rw [List.mem_singleton.mp hp]
    exact ⟨by simp, rfl⟩
  · have hcomplete := (isSpelled_iff.mp h).1
    refine List.isChain_append.mpr ⟨hcomplete.isChain_pieces [], .singleton _, ?_⟩
    intro p _ q hq
    cases hq
    exact Piece.apart_of_mem_marks (.inr (by simp [marks]))

/-- The C text of a spelled expression, ended by a semicolon, is read as that expression exactly if
the expression is shaped. -/
theorem IsSpelled.reads_iff {e : Expr} (h : e.IsSpelled) {text : Bytes}
    (htext : CText.expr e = .ok text) : Reads (text ++ ";") [.eval e] ↔ e.IsShaped := by
  have henc : (text ++ ";").IsEncoded := by
    refine Bytes.isEncoded_of_ascii (List.forall_mem_append.mpr ⟨fun b hb => ?_, fun b hb => ?_⟩)
    · exact CText.toNat_lt_of_isPlain (h.isPlain htext b hb)
    · rw [List.mem_singleton.mp hb]
      decide
  rw [← text_layout htext] at henc ⊢
  rw [h.wellFormed_layout.reads_iff henc, spellings_layout]
  simp [Stmt.IsComplete, Stmt.IsShaped, Stmt.exprs, Stmt.isKnown, (isSpelled_iff.mp h).1,
    Program.flatten]

/-- What passes from an expression to its operands passes to all its parts. -/
theorem forall_mem_parts {P : Expr → Prop}
    (hbinary : ∀ op left right, P (binary op left right) → P left ∧ P right)
    (hgroup : ∀ inner, P (group inner) → P inner) {e : Expr} (h : P e) : ∀ f ∈ e.parts, P f := by
  induction e with
  | number | name | missing | unknown => simpa [parts] using h
  | binary op left right ihl ihr =>
    obtain ⟨hl, hr⟩ := hbinary op left right h
    rw [parts, List.forall_mem_cons, List.forall_mem_append]
    exact ⟨h, ihl hl, ihr hr⟩
  | group inner ih =>
    rw [parts, List.forall_mem_cons]
    exact ⟨h, ih (hgroup inner h)⟩

theorem IsSpelled.of_mem_parts {e : Expr} (h : e.IsSpelled) : ∀ f ∈ e.parts, f.IsSpelled :=
  forall_mem_parts (fun _ _ _ h => h.2) (fun _ h => h) h

theorem IsShaped.of_mem_parts {e : Expr} (h : e.IsShaped) : ∀ f ∈ e.parts, f.IsShaped :=
  forall_mem_parts (fun _ _ _ h => ⟨h.1, h.2.1⟩) (fun _ h => h) h

end Expr

/-! ## Spelled statements -/

namespace Stmt

/-- The names, formats and expressions of a statement are spelled, and its sort is known. -/
def IsSpelled : Stmt → Prop
  | define name value => IsSpelling .identifier name ∧ value.IsSpelled
  | write format value => IsSpelling .string format ∧ value.IsSpelled
  | read name => IsSpelling .identifier name
  | eval value => value.IsSpelled
  | missing | unknown _ _ => False

/-- A complete statement that flattens to spellings is spelled. -/
theorem IsComplete.isSpelled {s : Stmt} (h : s.IsComplete)
    (hspelling : ∀ l ∈ s.flatten, IsSpelling l.1 l.2) : s.IsSpelled := by
  have expr : ∀ {e : Expr}, e ∈ s.exprs → (∀ l ∈ e.flatten, l ∈ s.flatten) → e.IsSpelled :=
    fun he hmem => Expr.isSpelled_iff.mpr ⟨h.2 _ he, fun l hl => hspelling l (hmem l hl)⟩
  cases s with
  | define name value =>
    exact ⟨hspelling (.identifier, name) (by simp [flatten]),
      expr (by simp [exprs]) (by simp +contextual [flatten])⟩
  | write format value =>
    exact ⟨hspelling (.string, format) (by simp [flatten]),
      expr (by simp [exprs]) (by simp +contextual [flatten])⟩
  | read name => exact hspelling (.identifier, name) (by simp [flatten])
  | eval value => exact expr (by simp [exprs]) (by simp +contextual [flatten])
  | missing | unknown => cases h.1

theorem IsSpelled.of_mem_exprs {s : Stmt} (h : s.IsSpelled) : ∀ e ∈ s.exprs, e.IsSpelled := by
  cases s with
  | define | write => simpa [exprs] using h.2
  | eval => simpa [exprs, IsSpelled] using h
  | read | missing | unknown => simp [exprs]

end Stmt

/-- All expressions in a program. -/
def Program.exprs (p : Program) : List Expr := p.flatMap fun s => s.exprs.flatMap Expr.parts

/-- The statements of a program that is read from a text are spelled and shaped. -/
theorem Reads.isSpelled {src : Bytes} {p : Program} (h : Reads src p) :
    ∀ s ∈ p, s.IsSpelled ∧ s.IsShaped := by
  have ⟨ts, hts, _⟩ := h
  obtain ⟨hsrc, d, hd, rfl, rfl⟩ := lex_eq_ok_iff.mp hts
  obtain ⟨-, hstmts, hflat⟩ := (hd.reads_iff hsrc).mp h
  intro s hs
  obtain ⟨hcomplete, hshaped⟩ := hstmts s hs
  refine ⟨hcomplete.isSpelled fun l hl => ?_, hshaped⟩
  have hmem : l ∈ d.spellings := hflat ▸ List.mem_flatMap.mpr ⟨s, hs, hl⟩
  obtain ⟨p, hp, rfl⟩ := List.mem_map.mp hmem
  exact (hd.pieces p hp).lexeme

/-- **C text means what the tree means.** The C text of a spelled expression, ended by a semicolon,
is read as that expression exactly if it is shaped. All expressions in a program that is read from a
text are spelled and shaped, so that their C texts are read as them. -/
theorem expr_reads_back :
    (∀ e : Expr, e.IsSpelled →
      ∃ text, CText.expr e = .ok text ∧ (Reads (text ++ ";") [.eval e] ↔ e.IsShaped)) ∧
    (∀ src p, Reads src p → ∀ e ∈ p.exprs, e.IsSpelled ∧ e.IsShaped ∧
      ∃ text, CText.expr e = .ok text ∧ Reads (text ++ ";") [.eval e]) := by
  have hwritten : ∀ e : Expr, e.IsSpelled →
      ∃ text, CText.expr e = .ok text ∧ (Reads (text ++ ";") [.eval e] ↔ e.IsShaped) := by
    intro e he
    obtain ⟨text, htext⟩ := (Expr.isSpelled_iff.mp he).1.exists_cText
    exact ⟨text, htext, he.reads_iff htext⟩
  refine ⟨hwritten, fun src p hp e he => ?_⟩
  obtain ⟨s, hs, hes⟩ := List.mem_flatMap.mp he
  obtain ⟨value, hvalue, hpart⟩ := List.mem_flatMap.mp hes
  obtain ⟨hspelled, hshaped⟩ := hp.isSpelled s hs
  have hspelled := (hspelled.of_mem_exprs value hvalue).of_mem_parts e hpart
  have hshaped := (hshaped value hvalue).of_mem_parts e hpart
  obtain ⟨text, htext, hreads⟩ := hwritten e hspelled
  exact ⟨hspelled, hshaped, text, htext, hreads.mpr hshaped⟩

-- A sum below a product is written like a product below a sum, and only the latter is shaped.
example :
    CText.expr (.binary .star (.binary .plus (.name "a") (.name "b")) (.name "c")) =
      CText.expr (.binary .plus (.name "a") (.binary .star (.name "b") (.name "c"))) := rfl

end Arrowlet
