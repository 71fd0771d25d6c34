import Arrowlet.Program.Parser

/-!
# The grammar of programs as a relation

`Grammar.Expression level ts e` says that the tokens `ts` derive the expression `e` at one of the
three levels of the grammar, `Grammar.Statement ts s` that they derive the statement `s`, and
`Grammar.Program ts p` that they derive one or more statements, those of `p`. The relation mentions
no reader: the chains of operators are left recursive, so that their trees lean to the left, and a
derivation uses up all of its tokens.

A derivation holds no end of the input (`Grammar.Program.kind_ne_eof`), and its first token tells
what it derives (`Grammar.Expression.head_mem_openers`).
-/

namespace Arrowlet

namespace Grammar

/-- The levels of an expression, from the operands up. -/
inductive Level where
  /-- A number, a name, or a sum in parentheses. -/
  | operand
  /-- Operands with multiplicative operators between them. -/
  | product
  /-- Products with additive operators between them. -/
  | sum
  deriving DecidableEq, Repr

/-- The tokens `ts` derive the expression `e` at a level. In a chain of operators, what stands
before the last operator is its left operand. -/
inductive Expression : Level → List Token → Expr → Prop
  | number {t : Token} (ht : t.kind = .number) : Expression .operand [t] (.number t.lexeme)
  | name {t : Token} (ht : t.kind = .identifier) : Expression .operand [t] (.name t.lexeme)
  | group {opening closing : Token} {ts : List Token} {e : Expr} (ho : opening.kind = .lparen)
      (he : Expression .sum ts e) (hc : closing.kind = .rparen) :
      Expression .operand (opening :: ts ++ [closing]) (.group e)
  | ofOperand {ts : List Token} {e : Expr} (he : Expression .operand ts e) :
      Expression .product ts e
  | multiply {op : Token} {ts us : List Token} {left right : Expr}
      (hl : Expression .product ts left) (ho : op.kind.isMultiplicative)
      (hr : Expression .operand us right) :
      Expression .product (ts ++ op :: us) (.binary op.kind left right)
  | ofProduct {ts : List Token} {e : Expr} (he : Expression .product ts e) : Expression .sum ts e
  | add {op : Token} {ts us : List Token} {left right : Expr}
      (hl : Expression .sum ts left) (ho : op.kind.isAdditive)
      (hr : Expression .product us right) :
      Expression .sum (ts ++ op :: us) (.binary op.kind left right)

/-- The tokens `ts` derive the statement `s`. -/
inductive Statement : List Token → Stmt → Prop
  | define {keyword name arrow stop : Token} {ts : List Token} {e : Expr}
      (hk : keyword.kind = .define) (hn : name.kind = .identifier) (ha : arrow.kind = .arrow)
      (he : Expression .sum ts e) (hs : stop.kind = .semicolon) :
      Statement (keyword :: name :: arrow :: ts ++ [stop]) (.define name.lexeme e)
  | write {keyword opening format comma closing stop : Token} {ts : List Token} {e : Expr}
      (hk : keyword.kind = .write) (ho : opening.kind = .lparen) (hf : format.kind = .string)
      (hm : comma.kind = .comma) (he : Expression .sum ts e) (hc : closing.kind = .rparen)
      (hs : stop.kind = .semicolon) :
      Statement (keyword :: opening :: format :: comma :: ts ++ [closing, stop])
        (.write format.lexeme e)
  | read {keyword opening name closing stop : Token}
      (hk : keyword.kind = .read) (ho : opening.kind = .scanAddr) (hn : name.kind = .identifier)
      (hc : closing.kind = .rparen) (hs : stop.kind = .semicolon) :
      Statement [keyword, opening, name, closing, stop] (.read name.lexeme)
  | eval {stop : Token} {ts : List Token} {e : Expr} (he : Expression .sum ts e)
      (hs : stop.kind = .semicolon) : Statement (ts ++ [stop]) (.eval e)

/-- The tokens `ts` derive the statements of `p`, at least one. -/
inductive Program : List Token → Arrowlet.Program → Prop
  | single {ts : List Token} {s : Stmt} (hs : Statement ts s) : Program ts [s]
  | cons {ts us : List Token} {s : Stmt} {p : Arrowlet.Program} (hs : Statement ts s)
      (hp : Program us p) : Program (ts ++ us) (s :: p)

/-- Statements of two programs one after the other are those of one program. -/
theorem Program.append {ts us : List Token} {p q : Arrowlet.Program} (hp : Program ts p)
    (hq : Program us q) : Program (ts ++ us) (p ++ q) := by
  induction hp with
  | single hs => exact .cons hs hq
  | cons hs _ ih =>
    rw [List.append_assoc]
    exact .cons hs ih

/-! ## What a derivation begins with -/

/-- An expression begins with a number, a name or a parenthesis. -/
theorem Expression.head_mem_openers {level : Level} {ts : List Token} {e : Expr}
    (h : Expression level ts e) : ∃ t us, ts = t :: us ∧ t.kind ∈ Parser.operandOpeners := by
  induction h with
  | @number t ht => exact ⟨t, [], rfl, by simp [Parser.operandOpeners, ht]⟩
  | @name t ht => exact ⟨t, [], rfl, by simp [Parser.operandOpeners, ht]⟩
  | @group opening _ ts _ ho => exact ⟨opening, ts ++ [_], rfl, by simp [Parser.operandOpeners, ho]⟩
  | ofOperand _ ih | ofProduct _ ih => exact ih
  | multiply _ _ _ ih _ | add _ _ _ ih _ =>
    obtain ⟨t, us, rfl, ht⟩ := ih
    exact ⟨t, _, List.cons_append .., ht⟩

/-! ## The end of the input -/

/-- No token of an expression is the end of the input. -/
theorem Expression.kind_ne_eof {level : Level} {ts : List Token} {e : Expr}
    (h : Expression level ts e) : ∀ t ∈ ts, t.kind ≠ .eof := by
  induction h with
  | number ht | name ht =>
    intro t hmem
    rw [List.mem_singleton.mp hmem, ht]
    simp
  | group ho _ hc ih =>
    intro t hmem
    rcases List.mem_append.mp hmem with hmem | hmem
    · rcases List.mem_cons.mp hmem with rfl | hmem
      · simp [ho]
      · exact ih t hmem
    · rw [List.mem_singleton.mp hmem, hc]
      simp
  | ofOperand _ ih | ofProduct _ ih => exact ih
  | multiply _ ho _ ihl ihr | add _ ho _ ihl ihr =>
    intro t hmem
    rcases List.mem_append.mp hmem with hmem | hmem
    · exact ihl t hmem
    · rcases List.mem_cons.mp hmem with rfl | hmem
      · intro heof
        rw [heof] at ho
        cases ho
      · exact ihr t hmem

/-- No token of a statement is the end of the input. -/
theorem Statement.kind_ne_eof {ts : List Token} {s : Stmt} (h : Statement ts s) :
    ∀ t ∈ ts, t.kind ≠ .eof := by
  cases h with
  | define hk hn ha he hs =>
    have := he.kind_ne_eof
    simp_all [or_imp]
  | write hk ho hf hm he hc hs =>
    have := he.kind_ne_eof
    simp_all [or_imp]
  | read hk ho hn hc hs => simp_all
  | eval he hs =>
    have := he.kind_ne_eof
    simp_all [or_imp]

/-- No token of a program is the end of the input. -/
theorem Program.kind_ne_eof {ts : List Token} {p : Arrowlet.Program} (h : Program ts p) :
    ∀ t ∈ ts, t.kind ≠ .eof := by
  induction h with
  | single hs => exact hs.kind_ne_eof
  | cons hs _ ih =>
    intro t hmem
    exact (List.mem_append.mp hmem).elim (hs.kind_ne_eof t) (ih t)

end Grammar

end Arrowlet
