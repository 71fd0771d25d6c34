import Arrowlet.Proofs.Program.Descent
import Arrowlet.Proofs.Program.Grammar

/-!
# Parsing recognises the grammar

`parse_recognizes_grammar`: a list of tokens parses as a program exactly if the tokens before the
first end of the input derive it, and no tokens derive two programs.

One direction goes along the readers (`Parser.descent_induction`): what a reader takes off the list
derives what it returns, and what a tail takes off extends every derivation of what stands before
it. The other goes along the derivation (`Grammar.Expression.readAt`). A derivation at the level of
a product or a sum may be the beginning of a longer chain, so that its reader need not stop after
it: it is as if the reader of the tail took over with the derived expression on its left.
-/

namespace Arrowlet

open Grammar

namespace Parser

/-! ## What is read is derived -/

section
variable {ts rest : List Token} {e left : Expr}

/-- A reader of expressions that was given `ts` derives what it returns, at a level, from what it
takes off `ts`. -/
def Derived (level : Level) (ts : List Token) (r : Except Mismatch (Expr × List Token)) : Prop :=
  ∀ e rest, r = .ok (e, rest) → ∃ us, ts = us ++ rest ∧ Expression level us e

/-- A reader of a tail that was given `ts` extends every derivation of the expression on its left
by what it takes off `ts`. -/
def Extends (level : Level) (left : Expr) (ts : List Token)
    (r : Except Mismatch (Expr × List Token)) : Prop :=
  ∀ e rest, r = .ok (e, rest) →
    ∃ us, ts = us ++ rest ∧ ∀ vs, Expression level vs left → Expression level (vs ++ us) e

/-- A tail that takes nothing off extends every derivation. -/
theorem Extends.stop {level : Level} : Extends level left ts (.ok (left, ts)) := by
  intro e rest hr
  cases hr
  exact ⟨[], rfl, fun vs hvs => by rwa [List.append_nil]⟩

section
variable {level lower : Level} {reader : Except Mismatch (Expr × List Token)}
  (tail : Expr → List Token → Except Mismatch (Expr × List Token))

/-- A chain is derived if its first member is, and if its tail extends that. -/
theorem Derived.chain (hreader : Derived lower ts reader)
    (htail : ∀ first us, reader = .ok (first, us) → Extends level first us (tail first us))
    (hsingle : ∀ {us first}, Expression lower us first → Expression level us first) :
    Derived level ts (reader >>= fun first => tail first.1 first.2) := by
  intro e rest hr
  obtain ⟨⟨first, us⟩, hfirst, hr⟩ := bind_eq_ok_iff.mp hr
  obtain ⟨vs, rfl, hvs⟩ := hreader first us hfirst
  obtain ⟨ws, rfl, hws⟩ := htail first us hfirst e rest hr
  exact ⟨vs ++ ws, by simp, hws vs (hsingle hvs)⟩

/-- A tail that goes on with an operator extends every derivation, if its right operand is derived
and the tail after it extends the chain up to there. -/
theorem Extends.operator {op : Token} (hreader : Derived lower ts reader)
    (htail : ∀ right us, reader = .ok (right, us) →
      Extends level (.binary op.kind left right) us (tail (.binary op.kind left right) us))
    (hchain : ∀ {vs us right}, Expression level vs left → Expression lower us right →
      Expression level (vs ++ op :: us) (.binary op.kind left right)) :
    Extends level left (op :: ts)
      (reader >>= fun right => tail (.binary op.kind left right.1) right.2) := by
  intro e rest hr
  obtain ⟨⟨right, us⟩, hright, hr⟩ := bind_eq_ok_iff.mp hr
  obtain ⟨vs, rfl, hvs⟩ := hreader right us hright
  obtain ⟨ws, rfl, hws⟩ := htail right us hright e rest hr
  refine ⟨op :: vs ++ ws, by simp, fun xs hxs => ?_⟩
  have := hws _ (hchain hxs hvs)
  rwa [List.append_assoc] at this

end

/-- An operand is derived once shorter sums are. -/
theorem operand_derived (ih : ∀ us, us.length < ts.length → Derived .sum us (outcome (sum us))) :
    Derived .operand ts (outcome (operand ts)) := by
  intro e rest hr
  cases ts with
  | nil => simp at hr
  | cons t us =>
    by_cases ht : t.kind ∈ operandOpeners
    · simp only [operandOpeners, List.mem_cons, List.not_mem_nil, or_false] at ht
      rcases ht with ht | ht | ht
      · rw [outcome_operand_number ht] at hr
        cases hr
        exact ⟨[t], rfl, .number ht⟩
      · rw [outcome_operand_name ht] at hr
        cases hr
        exact ⟨[t], rfl, .name ht⟩
      · rw [outcome_operand_lparen ht] at hr
        simp only [bind_eq_ok_iff, Prod.exists, outcome_expect_eq_ok] at hr
        obtain ⟨inner, _, hinner, closing, _, ⟨rfl, hclosing⟩, hr⟩ := hr
        cases hr
        obtain ⟨vs, rfl, hvs⟩ := ih us (by simp) inner _ hinner
        exact ⟨t :: vs ++ [closing], by simp, .group ht hvs hclosing⟩
    · rw [outcome_operand_other ht] at hr
      cases hr

/-- The tail of a product extends every derivation, once shorter operands are derived and shorter
tails extend. -/
theorem productTail_extends
    (hoperand : ∀ us, us.length < ts.length → Derived .operand us (outcome (operand us)))
    (ih : ∀ us, us.length < ts.length →
      ∀ left, Extends .product left us (outcome (productTail left us))) (left : Expr) :
    Extends .product left ts (outcome (productTail left ts)) := by
  cases ts with
  | nil =>
    rw [outcome_productTail_nil]
    exact .stop
  | cons t us =>
    by_cases ht : t.kind.isMultiplicative
    · rw [outcome_productTail_operator ht]
      refine .operator (fun e vs => outcome (productTail e vs)) (hoperand us (by simp))
        (fun right vs hright => ih vs ?_ _) fun hl hr => .multiply hl ht hr
      have := length_lt_of_outcome hright
      exact Nat.lt_succ_of_lt this
    · rw [outcome_productTail_other ht]
      exact .stop

/-- The tail of a sum extends every derivation, once shorter products are derived and shorter tails
extend. -/
theorem sumTail_extends
    (hproduct : ∀ us, us.length < ts.length → Derived .product us (outcome (product us)))
    (ih : ∀ us, us.length < ts.length →
      ∀ left, Extends .sum left us (outcome (sumTail left us))) (left : Expr) :
    Extends .sum left ts (outcome (sumTail left ts)) := by
  cases ts with
  | nil =>
    rw [outcome_sumTail_nil]
    exact .stop
  | cons t us =>
    by_cases ht : t.kind.isAdditive
    · rw [outcome_sumTail_operator ht]
      refine .operator (fun e vs => outcome (sumTail e vs)) (hproduct us (by simp))
        (fun right vs hright => ih vs ?_ _) fun hl hr => .add hl ht hr
      have := length_lt_of_outcome hright
      exact Nat.lt_succ_of_lt this
    · rw [outcome_sumTail_other ht]
      exact .stop

/-- What is read at a level derives what is returned, and what a tail reads extends it. -/
theorem expressions_derived (ts : List Token) :
    Derived .operand ts (outcome (operand ts)) ∧
    (∀ left, Extends .product left ts (outcome (productTail left ts))) ∧
    Derived .product ts (outcome (product ts)) ∧
    (∀ left, Extends .sum left ts (outcome (sumTail left ts))) ∧
    Derived .sum ts (outcome (sum ts)) := by
  refine descent_induction (fun ts => operand_derived) (fun ts => productTail_extends)
    (fun ts hoperand htail => ?_) (fun ts => sumTail_extends)
    (fun ts hproduct htail => ?_) ts
  · rw [outcome_product]
    exact hoperand.chain (fun e us => outcome (productTail e us))
      (fun first us h => htail us (length_lt_of_outcome h) first) .ofOperand
  · rw [outcome_sum]
    exact hproduct.chain (fun e us => outcome (sumTail e us))
      (fun first us h => htail us (length_lt_of_outcome h) first) .ofProduct

/-- What is read as a sum derives it. -/
theorem sum_derived (ts : List Token) : Derived .sum ts (outcome (sum ts)) :=
  (expressions_derived ts).2.2.2.2

/-- What is read as a statement derives it. -/
theorem statement_derived {s : Stmt} (h : outcome (statement ts) = .ok (s, rest)) :
    ∃ us, ts = us ++ rest ∧ Statement us s := by
  cases ts with
  | nil => simp at h
  | cons t us =>
    by_cases ht : t.kind ∈ statementOpeners
    · simp only [statementOpeners, List.mem_cons, List.not_mem_nil, or_false] at ht
      rcases ht with ht | ht | ht | ht
      · rw [outcome_statement_define ht, outcome_definition_eq_ok] at h
        obtain ⟨name, arrow, stop, vs, e, rfl, hn, ha, he, hs, rfl⟩ := h
        obtain ⟨ws, rfl, hws⟩ := sum_derived _ _ _ he
        exact ⟨t :: name :: arrow :: ws ++ [stop], by simp, .define ht hn ha hws hs⟩
      · rw [outcome_statement_write ht, outcome_output_eq_ok] at h
        obtain ⟨opening, format, comma, closing, stop, vs, e, rfl, ho, hf, hm, he, hc, hs, rfl⟩ := h
        obtain ⟨ws, rfl, hws⟩ := sum_derived _ _ _ he
        exact ⟨t :: opening :: format :: comma :: ws ++ [closing, stop], by simp,
          .write ht ho hf hm hws hc hs⟩
      · rw [outcome_statement_read ht, outcome_input_eq_ok] at h
        obtain ⟨opening, name, closing, stop, rfl, ho, hn, hc, hs, rfl⟩ := h
        exact ⟨[t, opening, name, closing, stop], by simp, .read ht ho hn hc hs⟩
      · have ht' : t.kind ∈ operandOpeners := by simpa [operandOpeners] using ht
        rw [outcome_statement_opener ht', outcome_evaluation_eq_ok] at h
        obtain ⟨stop, e, he, hs, rfl⟩ := h
        obtain ⟨ws, hws, hw⟩ := sum_derived _ _ _ he
        exact ⟨ws ++ [stop], by simpa using hws, .eval hw hs⟩
    · rw [outcome_statement_other ht] at h
      cases h

/-- What is read as statements derives them, and the end of the input comes next. -/
theorem statements_derived {p : Arrowlet.Program} (h : statements ts = .ok p) :
    ∃ us rest, ts = us ++ rest ∧ atEnd rest ∧ Grammar.Program us p := by
  induction hn : ts.length using Nat.strongRecOn generalizing ts p with
  | ind n ih =>
    subst hn
    rw [statements_eq, bind_eq_ok_iff] at h
    obtain ⟨⟨s, rest⟩, hs, h⟩ := h
    obtain ⟨us, rfl, hus⟩ := statement_derived hs
    split at h
    · next hend =>
      cases h
      exact ⟨us, rest, rfl, hend, .single hus⟩
    · obtain ⟨others, hothers, h⟩ := bind_eq_ok_iff.mp h
      cases h
      obtain ⟨vs, rest', rfl, hend, hvs⟩ := ih _ (length_lt_of_outcome hs) hothers rfl
      exact ⟨us ++ vs, rest', by simp, hend, .cons hus hvs⟩

/-! ## What is derived is read -/

/-- The next token, if there is one, is not among the given kinds. -/
def NotNext (kinds : Kind → Bool) (rest : List Token) : Prop :=
  ∀ t ∈ rest.head?, ¬ kinds t.kind

theorem outcome_productTail_stop (h : NotNext Kind.isMultiplicative rest) :
    outcome (productTail left rest) = .ok (left, rest) := by
  cases rest with
  | nil => exact outcome_productTail_nil
  | cons t us => exact outcome_productTail_other (h t rfl)

theorem outcome_sumTail_stop (h : NotNext Kind.isAdditive rest) :
    outcome (sumTail left rest) = .ok (left, rest) := by
  cases rest with
  | nil => exact outcome_sumTail_nil
  | cons t us => exact outcome_sumTail_other (h t rfl)

/-- How the reader of a level deals with the tokens `ts` of `e` and any tokens after them: an
operand is taken off, and a product or a sum goes on as a tail with `e` on its left. Before the tail
of a sum is reached, the last product must have ended. -/
def ReadAt : Level → List Token → Expr → Prop
  | .operand, ts, e => ∀ rest, outcome (operand (ts ++ rest)) = .ok (e, rest)
  | .product, ts, e => ∀ rest, outcome (product (ts ++ rest)) = outcome (productTail e rest)
  | .sum, ts, e => ∀ rest, NotNext Kind.isMultiplicative rest →
      outcome (sum (ts ++ rest)) = outcome (sumTail e rest)

end

end Parser

open Arrowlet.Parser

/-- Additive operators are not multiplicative. -/
theorem Kind.isMultiplicative_eq_false {kind : Kind} (h : kind.isAdditive) :
    kind.isMultiplicative = false := by
  cases kind <;> first | rfl | cases h

/-- What is derived at a level is read there. -/
theorem Grammar.Expression.readAt {level : Level} {ts : List Token} {e : Expr}
    (h : Expression level ts e) : ReadAt level ts e := by
  induction h with
  | number ht => exact fun rest => outcome_operand_number ht
  | name ht => exact fun rest => outcome_operand_name ht
  | @group opening closing ts e ho _ hc ih =>
    intro rest
    have hstop : NotNext Kind.isMultiplicative (closing :: rest) := by
      simp [NotNext, hc, Kind.isMultiplicative]
    have hsum : outcome (sum (ts ++ closing :: rest)) = .ok (e, closing :: rest) := by
      rw [ih _ hstop]
      exact outcome_sumTail_other (by simp [hc, Kind.isAdditive])
    rw [List.cons_append, List.cons_append, List.append_assoc, outcome_operand_lparen ho]
    exact bind_eq_ok_iff.mpr ⟨_, hsum, bind_eq_ok_iff.mpr
      ⟨(closing, rest), outcome_expect_eq_ok.mpr ⟨rfl, hc⟩, rfl⟩⟩
  | ofOperand _ ih =>
    intro rest
    rw [outcome_product, ih rest]
    rfl
  | @multiply op ts us left right _ ho _ ihl ihr =>
    intro rest
    rw [List.append_assoc, ihl, List.cons_append, outcome_productTail_operator ho, ihr]
    rfl
  | ofProduct _ ih =>
    intro rest hrest
    rw [outcome_sum, ih rest, outcome_productTail_stop hrest]
    rfl
  | @add op ts us left right _ ho _ ihl ihr =>
    intro rest hrest
    have hop : NotNext Kind.isMultiplicative (op :: us ++ rest) := by
      simp [NotNext, Kind.isMultiplicative_eq_false ho]
    rw [List.append_assoc, ihl _ hop, List.cons_append, outcome_sumTail_operator ho, ihr,
      outcome_productTail_stop hrest]
    rfl

/-- A derived sum is taken off a list if no operator comes next. -/
theorem Grammar.Expression.outcome_sum {ts rest : List Token} {e : Expr}
    (h : Expression .sum ts e) (hrest : NotNext Kind.isOperator rest) :
    outcome (sum (ts ++ rest)) = .ok (e, rest) := by
  have hproduct : NotNext Kind.isMultiplicative rest := fun t ht hm =>
    hrest t ht (by simp [Kind.isOperator, hm])
  have hsum : NotNext Kind.isAdditive rest := fun t ht ha =>
    hrest t ht (by simp [Kind.isOperator, ha])
  rw [h.readAt rest hproduct, outcome_sumTail_stop hsum]

/-- A derived statement is taken off a list, whatever comes next. -/
theorem Grammar.Statement.outcome_statement {ts rest : List Token} {s : Stmt}
    (h : Statement ts s) : outcome (statement (ts ++ rest)) = .ok (s, rest) := by
  have hstop : ∀ {t : Token} {us : List Token} {kind : Kind}, t.kind = kind →
      kind.isOperator = false → NotNext Kind.isOperator (t :: us) := by
    intro t us kind ht hkind
    simp [NotNext, ht, hkind]
  cases h with
  | @define keyword name arrow stop us e hk hn ha he hs =>
    rw [List.append_assoc, List.cons_append, outcome_statement_define hk,
      outcome_definition_eq_ok]
    exact ⟨name, arrow, stop, _, e, rfl, hn, ha, he.outcome_sum (hstop hs rfl), hs, rfl⟩
  | @write keyword opening format comma closing stop us e hk ho hf hm he hc hs =>
    rw [List.append_assoc, List.cons_append, outcome_statement_write hk, outcome_output_eq_ok]
    exact ⟨opening, format, comma, closing, stop, _, e, rfl, ho, hf, hm,
      he.outcome_sum (hstop hc rfl), hc, hs, rfl⟩
  | @read keyword opening name closing stop hk ho hn hc hs =>
    rw [List.cons_append, outcome_statement_read hk, outcome_input_eq_ok]
    exact ⟨opening, name, closing, stop, rfl, ho, hn, hc, hs, rfl⟩
  | @eval stop us e he hs =>
    obtain ⟨t, vs, rfl, ht⟩ := he.head_mem_openers
    rw [List.append_assoc, List.cons_append, outcome_statement_opener ht, outcome_evaluation_eq_ok]
    exact ⟨stop, e, he.outcome_sum (hstop hs rfl), hs, rfl⟩

/-- A program is not derived from nothing. -/
theorem Grammar.Program.ne_nil {ts : List Token} {p : Arrowlet.Program} (h : Grammar.Program ts p) :
    ts ≠ [] := by
  have hstmt : ∀ {us : List Token} {s : Stmt}, Statement us s → us ≠ [] := by
    intro us s hs
    cases hs <;> simp
  cases h with
  | single hs => exact hstmt hs
  | cons hs _ => exact fun hnil => hstmt hs (List.append_eq_nil_iff.mp hnil).1

/-- Where a program begins, the end of the input does not come next. -/
theorem Grammar.Program.atEnd_append {ts rest : List Token} {p : Arrowlet.Program}
    (h : Grammar.Program ts p) : atEnd (ts ++ rest) = false := by
  cases ts with
  | nil => exact absurd rfl h.ne_nil
  | cons t us => simpa [atEnd] using h.kind_ne_eof t (by simp)

/-- Derived statements are read up to the end of the input. -/
theorem Grammar.Program.statements_eq_ok {ts rest : List Token} {p : Arrowlet.Program}
    (h : Grammar.Program ts p) (hend : atEnd rest) : statements (ts ++ rest) = .ok p := by
  induction h with
  | single hs =>
    rw [statements_eq, hs.outcome_statement]
    exact if_pos hend
  | @cons ts us s p hs hp ih =>
    rw [statements_eq, List.append_assoc, hs.outcome_statement]
    refine (if_neg (by simp [hp.atEnd_append])).trans ?_
    rw [ih]
    rfl

/-! ## Recognition -/

/-- The tokens before the first end of the input. -/
def beforeEnd (ts : List Token) : List Token := ts.takeWhile fun t => t.kind ≠ .eof

/-- Tokens without the end of the input, followed by it or by nothing, are the tokens before it. -/
theorem beforeEnd_append {ts rest : List Token} (hts : ∀ t ∈ ts, t.kind ≠ .eof)
    (hend : atEnd rest) : beforeEnd (ts ++ rest) = ts := by
  have hrest : beforeEnd rest = [] := by
    cases rest with
    | nil => rfl
    | cons t us => simpa [beforeEnd, atEnd, List.takeWhile_cons] using hend
  rw [beforeEnd, List.takeWhile_append_of_pos (by simpa using hts)]
  exact (congrArg (ts ++ ·) hrest).trans (List.append_nil ts)

/-- After the tokens before it, the end of the input comes next. -/
theorem exists_beforeEnd_append (ts : List Token) :
    ∃ rest, ts = beforeEnd ts ++ rest ∧ atEnd rest := by
  refine ⟨ts.dropWhile fun t => t.kind ≠ .eof, List.takeWhile_append_dropWhile.symm, ?_⟩
  cases h : ts.dropWhile fun t => t.kind ≠ .eof with
  | nil => rfl
  | cons t us =>
    have := List.head?_dropWhile_not (fun t : Token => decide (t.kind ≠ .eof)) ts
    rw [h] at this
    simpa [atEnd] using this

/-- A list of tokens parses as a program exactly if the tokens before the end derive it. -/
theorem parse_eq_ok_iff {ts : List Token} {p : Arrowlet.Program} :
    parse ts = .ok p ↔ Grammar.Program (beforeEnd ts) p := by
  have hparse : parse ts = .ok p ↔ statements ts = .ok p := by
    rw [parse]
    cases statements ts <;> simp
  rw [hparse]
  constructor
  · intro h
    obtain ⟨us, rest, rfl, hend, hus⟩ := statements_derived h
    rwa [beforeEnd_append hus.kind_ne_eof hend]
  · intro h
    obtain ⟨rest, hts, hend⟩ := exists_beforeEnd_append ts
    rw [hts]
    exact h.statements_eq_ok hend

/-- What stands before the end of the input does not depend on what follows it. -/
theorem beforeEnd_append_eof (ts rest : List Token) {stop : Token} (hstop : stop.kind = .eof) :
    beforeEnd (ts ++ stop :: rest) = beforeEnd ts := by
  induction ts with
  | nil => simp [beforeEnd, hstop]
  | cons t ts ih =>
    simp only [beforeEnd] at ih
    simp only [beforeEnd, List.cons_append, List.takeWhile_cons, ih]

/-- **Parsing recognises the grammar.** A list of tokens parses as a program exactly if the tokens
before the first end of the input derive it; tokens derive at most one program; and an end of the
input may be put after a list of tokens, with anything after it, or left out. -/
theorem parse_recognizes_grammar (ts : List Token) :
    (∀ p, parse ts = .ok p ↔ Grammar.Program (beforeEnd ts) p) ∧
    (∀ p q, Grammar.Program (beforeEnd ts) p → Grammar.Program (beforeEnd ts) q → p = q) ∧
    (∀ stop rest p, stop.kind = .eof →
      (parse (ts ++ stop :: rest) = .ok p ↔ parse ts = .ok p)) := by
  refine ⟨fun p => parse_eq_ok_iff, fun p q hp hq => ?_, fun stop rest p hstop => ?_⟩
  · have := (parse_eq_ok_iff.mpr hp).symm.trans (parse_eq_ok_iff.mpr hq)
    cases this
    rfl
  · rw [parse_eq_ok_iff, parse_eq_ok_iff, beforeEnd_append_eof ts rest hstop]

end Arrowlet
