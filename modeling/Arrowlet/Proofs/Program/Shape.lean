import Arrowlet.Proofs.Program.Recognition

/-!
# The shape of parsed programs

A program is flattened to the kinds and texts of the tokens that spell it, with the parentheses of
the tree only (`Program.flatten`). Flattening forgets the tree, except for trees of a certain shape:
a sum is no right operand of an operator and no left operand of `*` or `/`, and a product is no
right operand of `*` or `/` (`Expr.IsShaped`).

What a list of tokens derives at a level of the grammar is complete and shaped, the level admits it,
and it flattens to the tokens (`Grammar.Expression.flatten_eq`); and every such expression is
derived (`Grammar.expression_of_flatten`). So parsing inverts flattening on complete and shaped
programs, and gives nothing else (`parse_eq_ok_iff_flatten`).
-/

namespace Arrowlet

open Grammar Token

/-- The kind of a token and what varies of its text: kinds with a symbol are spelled like that. -/
def Token.content (t : Token) : Kind × Bytes :=
  (t.kind, if t.kind.symbol = [] then t.lexeme else t.kind.symbol)

/-- The content of the tokens of a kind that has a symbol. -/
def Kind.fixed (kind : Kind) : Kind × Bytes := (kind, kind.symbol)

/-- The operators have symbols. -/
theorem Kind.symbol_ne_nil_of_isOperator {kind : Kind} (h : kind.isOperator) :
    kind.symbol ≠ [] := by
  cases kind <;> first | decide | cases h

section
variable {t : Token} {kind : Kind}

/-- The content of a token whose kind has a symbol is given by the kind. -/
theorem Token.content_of_symbol (h : kind.symbol ≠ []) (ht : t.kind = kind) :
    t.content = kind.fixed := by
  subst ht
  rw [content, if_neg h, Kind.fixed]

/-- The content of a token whose kind has no symbol holds its lexeme. -/
theorem Token.content_of_lexeme (h : kind.symbol = []) (ht : t.kind = kind) :
    t.content = (kind, t.lexeme) := by
  subst ht
  rw [content, if_pos h]

theorem Token.kind_of_content {text : Bytes} (h : t.content = (kind, text)) : t.kind = kind :=
  congrArg Prod.fst h

theorem Token.lexeme_of_content {text : Bytes} (hkind : kind.symbol = [])
    (h : t.content = (kind, text)) : t.lexeme = text := by
  rw [content_of_lexeme hkind (kind_of_content h)] at h
  exact congrArg Prod.snd h

end

/-! ## Expressions -/

namespace Expr

/-- Whether an operator stands at the root. -/
def isBinary : Expr → Bool
  | binary _ _ _ => true
  | _ => false

/-- Whether an additive operator stands at the root. -/
def isSum : Expr → Bool
  | binary op _ _ => op.isAdditive
  | _ => false

/-- No sum is a right operand or the left operand of a product, and no operator stands at the root
of the right operand of a product. -/
def IsShaped : Expr → Prop
  | number _ | name _ | missing | unknown _ _ => True
  | binary op left right => left.IsShaped ∧ right.IsShaped ∧
      (op.isAdditive → ¬ right.isSum) ∧
      (op.isMultiplicative → ¬ left.isSum ∧ ¬ right.isBinary)
  | group inner => inner.IsShaped

/-- No node is missing or unknown, and the operators are arithmetic. -/
def IsComplete : Expr → Prop
  | number _ | name _ => True
  | binary op left right => op.isOperator ∧ left.IsComplete ∧ right.IsComplete
  | group inner => inner.IsComplete
  | missing | unknown _ _ => False

/-- The kinds and texts of the tokens of an expression. -/
def flatten : Expr → List (Kind × Bytes)
  | number text => [(.number, text)]
  | name text => [(.identifier, text)]
  | binary op left right => left.flatten ++ op.fixed :: right.flatten
  | group inner => Kind.lparen.fixed :: inner.flatten ++ [Kind.rparen.fixed]
  | missing | unknown _ _ => []

end Expr

namespace Grammar

/-- The expressions that may stand at a level, as far as the operator at the root tells. -/
def Level.Admits : Level → Expr → Prop
  | .operand, e => ¬ e.isBinary
  | .product, e => ¬ e.isSum
  | .sum, _ => True

/-- What is derived is complete, shaped and admitted, and flattens to its tokens. -/
theorem Expression.flatten_eq {level : Level} {ts : List Token} {e : Expr}
    (h : Expression level ts e) :
    e.IsComplete ∧ e.IsShaped ∧ level.Admits e ∧ ts.map Token.content = e.flatten := by
  induction h with
  | number ht | name ht =>
    refine ⟨trivial, trivial, nofun, ?_⟩
    rw [List.map_singleton, content_of_lexeme rfl ht, Expr.flatten]
  | group ho _ hc ih =>
    obtain ⟨hcomplete, hshaped, -, hflat⟩ := ih
    refine ⟨hcomplete, hshaped, nofun, ?_⟩
    rw [List.map_append, List.map_cons, List.map_singleton, hflat,
      content_of_symbol (by decide) ho, content_of_symbol (by decide) hc, Expr.flatten]
  | @ofOperand ts e _ ih =>
    obtain ⟨hcomplete, hshaped, hoperand, hflat⟩ := ih
    refine ⟨hcomplete, hshaped, fun hsum => hoperand ?_, hflat⟩
    cases e <;> first | rfl | cases hsum
  | ofProduct _ ih => exact ⟨ih.1, ih.2.1, trivial, ih.2.2.2⟩
  | @multiply op _ _ _ _ _ ho _ ihl ihr =>
    obtain ⟨hcl, hsl, hal, hfl⟩ := ihl
    obtain ⟨hcr, hsr, har, hfr⟩ := ihr
    have hadd : ¬ op.kind.isAdditive := fun h => by
      rw [Kind.isMultiplicative_eq_false h] at ho
      cases ho
    have hop : op.kind.isOperator := by simp [Kind.isOperator, ho]
    refine ⟨⟨hop, hcl, hcr⟩, ⟨hsl, hsr, fun h => absurd h hadd, fun _ => ⟨hal, har⟩⟩, hadd, ?_⟩
    rw [List.map_append, List.map_cons, hfl, hfr, Expr.flatten,
      content_of_symbol (Kind.symbol_ne_nil_of_isOperator hop) rfl]
  | @add op _ _ _ _ _ ho _ ihl ihr =>
    obtain ⟨hcl, hsl, -, hfl⟩ := ihl
    obtain ⟨hcr, hsr, har, hfr⟩ := ihr
    have hmul : ¬ op.kind.isMultiplicative := by simp [Kind.isMultiplicative_eq_false ho]
    have hop : op.kind.isOperator := by simp [Kind.isOperator, ho]
    refine ⟨⟨hop, hcl, hcr⟩, ⟨hsl, hsr, fun _ => har, fun h => absurd h hmul⟩, trivial, ?_⟩
    rw [List.map_append, List.map_cons, hfl, hfr, Expr.flatten,
      content_of_symbol (Kind.symbol_ne_nil_of_isOperator hop) rfl]

/-- An operand may stand at every level. -/
theorem Expression.ofOperand_all {ts : List Token} {e : Expr} (h : Expression .operand ts e)
    (level : Level) : Expression level ts e := by
  cases level with
  | operand => exact h
  | product => exact .ofOperand h
  | sum => exact .ofProduct (.ofOperand h)

/-- A complete and shaped expression is derived, at every level that admits it, from the tokens that
it flattens to. -/
theorem expression_of_flatten {level : Level} {ts : List Token} {e : Expr} (hc : e.IsComplete)
    (hs : e.IsShaped) (ha : level.Admits e) (hts : ts.map Token.content = e.flatten) :
    Expression level ts e := by
  induction e generalizing level ts with
  | number text =>
    obtain ⟨t, rfl, ht⟩ := List.map_eq_singleton_iff.mp hts
    cases lexeme_of_content rfl ht
    exact (Expression.number (kind_of_content ht)).ofOperand_all level
  | name text =>
    obtain ⟨t, rfl, ht⟩ := List.map_eq_singleton_iff.mp hts
    cases lexeme_of_content rfl ht
    exact (Expression.name (kind_of_content ht)).ofOperand_all level
  | group inner ih =>
    rw [Expr.flatten, List.cons_append, List.map_eq_cons_iff] at hts
    obtain ⟨opening, rest, rfl, ho, hrest⟩ := hts
    obtain ⟨us, vs, rfl, hus, hvs⟩ := List.map_eq_append_iff.mp hrest
    obtain ⟨closing, rfl, hclosing⟩ := List.map_eq_singleton_iff.mp hvs
    have hgroup := Expression.group (kind_of_content ho) (ih hc hs trivial hus)
      (kind_of_content hclosing)
    exact hgroup.ofOperand_all level
  | binary op left right ihl ihr =>
    obtain ⟨hop, hcl, hcr⟩ := hc
    obtain ⟨hsl, hsr, hadd, hmul⟩ := hs
    obtain ⟨us, rest, rfl, hus, hrest⟩ := List.map_eq_append_iff.mp hts
    obtain ⟨t, vs, rfl, ht, hvs⟩ := List.map_eq_cons_iff.mp hrest
    cases kind_of_content ht
    rcases Bool.or_eq_true_iff.mp hop with hop | hop
    · -- A sum is admitted as a sum only.
      cases level with
      | operand => exact absurd rfl ha
      | product => exact absurd hop ha
      | sum => exact .add (ihl hcl hsl trivial hus) hop (ihr hcr hsr (hadd hop) hvs)
    · have hproduct : Expression .product (us ++ t :: vs) (.binary t.kind left right) :=
        .multiply (ihl hcl hsl (hmul hop).1 hus) hop (ihr hcr hsr (hmul hop).2 hvs)
      cases level with
      | operand => exact absurd rfl ha
      | product => exact hproduct
      | sum => exact .ofProduct hproduct
  | missing | unknown _ _ => exact hc.elim

end Grammar

/-! ## Statements and programs -/

namespace Stmt

/-- The expressions that a statement holds. -/
def exprs : Stmt → List Expr
  | define _ value | write _ value | eval value => [value]
  | read _ | missing | unknown _ _ => []

/-- Whether the sort of a statement is known. -/
def isKnown : Stmt → Bool
  | missing | unknown _ _ => false
  | _ => true

/-- The sort of a statement is known, and its expressions are complete. -/
def IsComplete (s : Stmt) : Prop := s.isKnown ∧ ∀ e ∈ s.exprs, e.IsComplete

/-- The expressions of a statement are shaped. -/
def IsShaped (s : Stmt) : Prop := ∀ e ∈ s.exprs, e.IsShaped

/-- The kinds and texts of the tokens of a statement. -/
def flatten : Stmt → List (Kind × Bytes)
  | define name value => Kind.define.fixed :: (.identifier, name) :: Kind.arrow.fixed ::
      value.flatten ++ [Kind.semicolon.fixed]
  | write format value => Kind.write.fixed :: Kind.lparen.fixed :: (.string, format) ::
      Kind.comma.fixed :: value.flatten ++ [Kind.rparen.fixed, Kind.semicolon.fixed]
  | read name => [Kind.read.fixed, Kind.scanAddr.fixed, (.identifier, name), Kind.rparen.fixed,
      Kind.semicolon.fixed]
  | eval value => value.flatten ++ [Kind.semicolon.fixed]
  | missing | unknown _ _ => []

end Stmt

/-- The kinds and texts of the tokens of a program. -/
def Program.flatten (p : Program) : List (Kind × Bytes) := p.flatMap Stmt.flatten

namespace Grammar

/-- What is derived as a statement is complete and shaped, and flattens to its tokens. -/
theorem Statement.flatten_eq {ts : List Token} {s : Stmt} (h : Statement ts s) :
    s.IsComplete ∧ s.IsShaped ∧ ts.map Token.content = s.flatten := by
  cases h with
  | define hk hn ha he hs =>
    obtain ⟨hc, hsh, -, hflat⟩ := he.flatten_eq
    refine ⟨⟨rfl, by simpa [Stmt.exprs]⟩, by simpa [Stmt.IsShaped, Stmt.exprs], ?_⟩
    simp only [List.map_append, List.map_cons, List.map_nil, hflat, Stmt.flatten,
      content_of_symbol (by decide) hk, content_of_lexeme rfl hn,
      content_of_symbol (by decide) ha, content_of_symbol (by decide) hs]
  | write hk ho hf hm he hc hs =>
    obtain ⟨hcomplete, hsh, -, hflat⟩ := he.flatten_eq
    refine ⟨⟨rfl, by simpa [Stmt.exprs]⟩, by simpa [Stmt.IsShaped, Stmt.exprs], ?_⟩
    simp only [List.map_append, List.map_cons, List.map_nil, hflat, Stmt.flatten,
      content_of_symbol (by decide) hk, content_of_symbol (by decide) ho, content_of_lexeme rfl hf,
      content_of_symbol (by decide) hm, content_of_symbol (by decide) hc,
      content_of_symbol (by decide) hs]
  | read hk ho hn hc hs =>
    refine ⟨⟨rfl, by simp [Stmt.exprs]⟩, by simp [Stmt.IsShaped, Stmt.exprs], ?_⟩
    simp only [List.map_cons, List.map_nil, content_of_symbol (by decide) hk,
      content_of_symbol (by decide) ho, content_of_lexeme rfl hn, content_of_symbol (by decide) hc,
      content_of_symbol (by decide) hs, Stmt.flatten]
  | eval he hs =>
    obtain ⟨hc, hsh, -, hflat⟩ := he.flatten_eq
    refine ⟨⟨rfl, by simpa [Stmt.exprs]⟩, by simpa [Stmt.IsShaped, Stmt.exprs], ?_⟩
    simp only [List.map_append, List.map_cons, List.map_nil, hflat,
      content_of_symbol (by decide) hs, Stmt.flatten]

/-- A complete and shaped statement is derived from the tokens that it flattens to. -/
theorem statement_of_flatten {ts : List Token} {s : Stmt} (hc : s.IsComplete) (hs : s.IsShaped)
    (hts : ts.map Token.content = s.flatten) : Statement ts s := by
  have expr : ∀ {us : List Token} {e : Expr}, e ∈ s.exprs → us.map Token.content = e.flatten →
      Expression .sum us e := fun he hus => expression_of_flatten (hc.2 _ he) (hs _ he) trivial hus
  cases s with
  | define name value =>
    simp only [Stmt.flatten, List.cons_append, List.map_eq_cons_iff, List.map_eq_append_iff,
      List.map_eq_nil_iff] at hts
    obtain ⟨keyword, _, rfl, hk, t, _, rfl, hn, arrow, _, rfl, ha, us, _, rfl, hus, stop, _, rfl,
      hstop, rfl⟩ := hts
    cases lexeme_of_content rfl hn
    exact .define (kind_of_content hk) (kind_of_content hn) (kind_of_content ha)
      (expr (by simp [Stmt.exprs]) hus) (kind_of_content hstop)
  | write format value =>
    simp only [Stmt.flatten, List.cons_append, List.map_eq_cons_iff, List.map_eq_append_iff,
      List.map_eq_nil_iff] at hts
    obtain ⟨keyword, _, rfl, hk, opening, _, rfl, ho, t, _, rfl, hf, comma, _, rfl, hm, us, _, rfl,
      hus, closing, _, rfl, hclosing, stop, _, rfl, hstop, rfl⟩ := hts
    cases lexeme_of_content rfl hf
    exact .write (kind_of_content hk) (kind_of_content ho) (kind_of_content hf)
      (kind_of_content hm) (expr (by simp [Stmt.exprs]) hus)
      (kind_of_content hclosing) (kind_of_content hstop)
  | read name =>
    simp only [Stmt.flatten, List.map_eq_cons_iff, List.map_eq_nil_iff] at hts
    obtain ⟨keyword, _, rfl, hk, opening, _, rfl, ho, t, _, rfl, hn, closing, _, rfl, hclosing,
      stop, _, rfl, hstop, rfl⟩ := hts
    cases lexeme_of_content rfl hn
    exact .read (kind_of_content hk) (kind_of_content ho) (kind_of_content hn)
      (kind_of_content hclosing) (kind_of_content hstop)
  | eval value =>
    obtain ⟨us, vs, rfl, hus, hvs⟩ := List.map_eq_append_iff.mp hts
    obtain ⟨stop, rfl, hstop⟩ := List.map_eq_singleton_iff.mp hvs
    exact .eval (expr (by simp [Stmt.exprs]) hus) (kind_of_content hstop)
  | missing | unknown _ _ => exact absurd hc.1 (by simp [Stmt.isKnown])

/-- A list of tokens derives a program exactly if the program is not empty, its statements are
complete and shaped, and it flattens to the tokens. -/
theorem program_iff_flatten {ts : List Token} {p : Arrowlet.Program} :
    Program ts p ↔
      p ≠ [] ∧ (∀ s ∈ p, s.IsComplete ∧ s.IsShaped) ∧ ts.map Token.content = p.flatten := by
  constructor
  · intro h
    induction h with
    | single hs =>
      obtain ⟨hc, hsh, hflat⟩ := hs.flatten_eq
      exact ⟨by simp, by simp [hc, hsh], by simp [Program.flatten, hflat]⟩
    | cons hs _ ih =>
      obtain ⟨hc, hsh, hflat⟩ := hs.flatten_eq
      obtain ⟨-, hstmts, hrest⟩ := ih
      refine ⟨by simp, List.forall_mem_cons.mpr ⟨⟨hc, hsh⟩, hstmts⟩, ?_⟩
      rw [List.map_append, hflat, hrest]
      rfl
  · rintro ⟨hne, hstmts, hts⟩
    induction p generalizing ts with
    | nil => exact absurd rfl hne
    | cons s p ih =>
      obtain ⟨⟨hc, hsh⟩, hstmts⟩ := List.forall_mem_cons.mp hstmts
      obtain ⟨us, vs, rfl, hus, hvs⟩ := List.map_eq_append_iff.mp hts
      have hs := statement_of_flatten hc hsh hus
      cases p with
      | nil =>
        rw [List.map_eq_nil_iff.mp hvs, List.append_nil]
        exact .single hs
      | cons s' p => exact .cons hs (ih (by simp) hstmts hvs)

end Grammar

/-- A list of tokens parses as a program exactly if the program is not empty, its statements are
complete and shaped, and it flattens to the tokens before the end of the input. -/
theorem parse_eq_ok_iff_flatten {ts : List Token} {p : Program} :
    parse ts = .ok p ↔ p ≠ [] ∧ (∀ s ∈ p, s.IsComplete ∧ s.IsShaped) ∧
      (beforeEnd ts).map Token.content = p.flatten :=
  parse_eq_ok_iff.trans program_iff_flatten

end Arrowlet
