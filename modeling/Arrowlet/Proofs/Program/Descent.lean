import Arrowlet.Program.Parser
import Arrowlet.Proofs.Except

/-!
# The readers of the descent, without their bounds

A reader of `Arrowlet.Parser` returns its rest with the proof that this is shorter, so the type of a
result depends on the tokens it was read from. `Parser.outcome` forgets the proof, and this module
states every reader as an equation between outcomes: an equation per shape of the next token for
`operand`, `productTail` and `sumTail`, a composition of readers for the others, and for the readers
of statements the exact condition under which they succeed.

`Parser.descent_induction` is the induction that the five mutually recursive readers of expressions
share: an operand is read from its sums inside parentheses, which are shorter, and the other four
from readers further down in the grammar or on shorter lists.
-/

namespace Arrowlet

namespace Parser

section
variable {α β : Type} {m n : Nat} {ts rest : List Token} {t : Token} {e left : Expr}

/-- What a reader returns, without the bound on what it leaves. -/
def outcome (r : Except Mismatch (Reading α n)) : Except Mismatch (α × List Token) :=
  r.map fun reading => (reading.value, reading.rest)

@[simp] theorem outcome_ok (reading : Reading α n) :
    outcome (.ok reading) = .ok (reading.value, reading.rest) := rfl

@[simp] theorem outcome_error (mismatch : Mismatch) :
    outcome (.error mismatch : Except Mismatch (Reading α n)) = .error mismatch := rfl

/-- A reader that goes on after another one goes on from its value and its rest. -/
theorem outcome_bind {r : Except Mismatch (Reading α m)}
    {f : Reading α m → Except Mismatch (Reading β n)}
    {g : α × List Token → Except Mismatch (β × List Token)}
    (h : ∀ reading, outcome (f reading) = g (reading.value, reading.rest)) :
    outcome (r >>= f) = outcome r >>= g := by
  cases r with
  | error mismatch => rfl
  | ok reading => exact h reading

/-- What is left is shorter than the bound. -/
theorem length_lt_of_outcome {r : Except Mismatch (Reading α n)} {value : α}
    (h : outcome r = .ok (value, rest)) : rest.length < n := by
  cases r with
  | error mismatch => cases h
  | ok reading =>
    cases h
    exact reading.rest_lt

/-! ## One token -/

@[simp] theorem outcome_expect_nil (kind : Kind) :
    outcome (expect kind []) = .error ⟨[kind], []⟩ := rfl

theorem outcome_expect_cons (kind : Kind) (t : Token) (rest : List Token) :
    outcome (expect kind (t :: rest)) =
      if t.kind = kind then .ok (t, rest) else .error ⟨[kind], t :: rest⟩ := by
  rw [expect]
  split <;> rfl

/-- A token of a kind is read where it stands. -/
theorem outcome_expect_eq_ok {kind : Kind} :
    outcome (expect kind ts) = .ok (t, rest) ↔ ts = t :: rest ∧ t.kind = kind := by
  cases ts with
  | nil => simp
  | cons u us =>
    rw [outcome_expect_cons]
    split
    · next hu =>
      constructor
      · intro h; cases h; exact ⟨rfl, hu⟩
      · rintro ⟨h, -⟩; cases h; rfl
    · next hu =>
      constructor
      · intro h; cases h
      · rintro ⟨h, ht⟩; cases h; exact absurd ht hu

/-! ## Expressions -/

@[simp] theorem outcome_operand_nil : outcome (operand []) = .error ⟨operandOpeners, []⟩ := by
  rw [operand]; rfl

theorem outcome_operand_number (h : t.kind = .number) :
    outcome (operand (t :: rest)) = .ok (.number t.lexeme, rest) := by
  rw [operand]
  split <;> simp_all

theorem outcome_operand_name (h : t.kind = .identifier) :
    outcome (operand (t :: rest)) = .ok (.name t.lexeme, rest) := by
  rw [operand]
  split <;> simp_all

theorem outcome_operand_lparen (h : t.kind = .lparen) :
    outcome (operand (t :: rest)) = outcome (sum rest) >>= fun inner =>
      outcome (expect .rparen inner.2) >>= fun closing => .ok (.group inner.1, closing.2) := by
  rw [operand]
  split
  case h_3 => exact outcome_bind fun _ => outcome_bind fun _ => rfl
  all_goals simp_all

theorem outcome_operand_other (h : t.kind ∉ operandOpeners) :
    outcome (operand (t :: rest)) = .error ⟨operandOpeners, t :: rest⟩ := by
  rw [operand]
  split <;> simp_all [operandOpeners]

@[simp] theorem outcome_productTail_nil : outcome (productTail left []) = .ok (left, []) := by
  rw [productTail]; rfl

theorem outcome_productTail_operator (h : t.kind.isMultiplicative) :
    outcome (productTail left (t :: rest)) = outcome (operand rest) >>= fun right =>
      outcome (productTail (.binary t.kind left right.1) right.2) := by
  rw [productTail, if_pos h]
  refine outcome_bind fun right => ?_
  cases productTail (.binary t.kind left right.value) right.rest <;> rfl

theorem outcome_productTail_other (h : ¬ t.kind.isMultiplicative) :
    outcome (productTail left (t :: rest)) = .ok (left, t :: rest) := by
  rw [productTail, if_neg h]; rfl

theorem outcome_product (ts : List Token) :
    outcome (product ts) = outcome (operand ts) >>= fun first =>
      outcome (productTail first.1 first.2) := by
  rw [product]
  refine outcome_bind fun first => ?_
  cases productTail first.value first.rest <;> rfl

@[simp] theorem outcome_sumTail_nil : outcome (sumTail left []) = .ok (left, []) := by
  rw [sumTail]; rfl

theorem outcome_sumTail_operator (h : t.kind.isAdditive) :
    outcome (sumTail left (t :: rest)) = outcome (product rest) >>= fun right =>
      outcome (sumTail (.binary t.kind left right.1) right.2) := by
  rw [sumTail, if_pos h]
  refine outcome_bind fun right => ?_
  cases sumTail (.binary t.kind left right.value) right.rest <;> rfl

theorem outcome_sumTail_other (h : ¬ t.kind.isAdditive) :
    outcome (sumTail left (t :: rest)) = .ok (left, t :: rest) := by
  rw [sumTail, if_neg h]; rfl

theorem outcome_sum (ts : List Token) :
    outcome (sum ts) = outcome (product ts) >>= fun first =>
      outcome (sumTail first.1 first.2) := by
  rw [sum]
  refine outcome_bind fun first => ?_
  cases sumTail first.value first.rest <;> rfl

/-- The induction that the readers of expressions share. A property of lists of tokens for each
reader holds everywhere if it holds of an operand once it holds of shorter sums, of a tail once it
holds of shorter operators and tails, and of a product or a sum once it holds of what it begins
with, on the same list, and of shorter tails. -/
theorem descent_induction {Operand ProductTail Product SumTail Sum : List Token → Prop}
    (operand : ∀ ts, (∀ us, us.length < ts.length → Sum us) → Operand ts)
    (productTail : ∀ ts, (∀ us, us.length < ts.length → Operand us) →
      (∀ us, us.length < ts.length → ProductTail us) → ProductTail ts)
    (product : ∀ ts, Operand ts → (∀ us, us.length < ts.length → ProductTail us) → Product ts)
    (sumTail : ∀ ts, (∀ us, us.length < ts.length → Product us) →
      (∀ us, us.length < ts.length → SumTail us) → SumTail ts)
    (sum : ∀ ts, Product ts → (∀ us, us.length < ts.length → SumTail us) → Sum ts)
    (ts : List Token) : Operand ts ∧ ProductTail ts ∧ Product ts ∧ SumTail ts ∧ Sum ts := by
  induction hn : ts.length using Nat.strongRecOn generalizing ts with
  | ind n ih =>
    subst hn
    have shorter : ∀ us : List Token, us.length < ts.length →
        Operand us ∧ ProductTail us ∧ Product us ∧ SumTail us ∧ Sum us :=
      fun us hus => ih us.length hus us rfl
    have hoperand := operand ts fun us hus => (shorter us hus).2.2.2.2
    have hproductTail := productTail ts (fun us hus => (shorter us hus).1)
      fun us hus => (shorter us hus).2.1
    have hproduct := product ts hoperand fun us hus => (shorter us hus).2.1
    have hsumTail := sumTail ts (fun us hus => (shorter us hus).2.2.1)
      fun us hus => (shorter us hus).2.2.2.1
    exact ⟨hoperand, hproductTail, hproduct, hsumTail,
      sum ts hproduct fun us hus => (shorter us hus).2.2.2.1⟩

/-! ## Statements -/

theorem outcome_definition (ts : List Token) :
    outcome (definition ts) = outcome (expect .identifier ts) >>= fun name =>
      outcome (expect .arrow name.2) >>= fun arrow => outcome (sum arrow.2) >>= fun value =>
      outcome (expect .semicolon value.2) >>= fun stop =>
      .ok (.define name.1.lexeme value.1, stop.2) :=
  outcome_bind fun _ => outcome_bind fun _ => outcome_bind fun _ => outcome_bind fun _ => rfl

/-- A declaration is a name, an arrow, a sum and a semicolon. -/
theorem outcome_definition_eq_ok {s : Stmt} :
    outcome (definition ts) = .ok (s, rest) ↔
      ∃ name arrow stop us e, ts = name :: arrow :: us ∧ name.kind = .identifier ∧
        arrow.kind = .arrow ∧ outcome (sum us) = .ok (e, stop :: rest) ∧
        stop.kind = .semicolon ∧ s = .define name.lexeme e := by
  simp only [outcome_definition, bind_eq_ok_iff, Prod.exists, outcome_expect_eq_ok]
  constructor
  · rintro ⟨name, _, ⟨rfl, hn⟩, arrow, us, ⟨rfl, ha⟩, e, _, he, stop, _, ⟨rfl, hs⟩, h⟩
    cases h
    exact ⟨name, arrow, stop, us, e, rfl, hn, ha, he, hs, rfl⟩
  · rintro ⟨name, arrow, stop, us, e, rfl, hn, ha, he, hs, rfl⟩
    exact ⟨name, _, ⟨rfl, hn⟩, arrow, us, ⟨rfl, ha⟩, e, _, he, stop, rest, ⟨rfl, hs⟩, rfl⟩

theorem outcome_output (ts : List Token) :
    outcome (output ts) = outcome (expect .lparen ts) >>= fun opening =>
      outcome (expect .string opening.2) >>= fun format =>
      outcome (expect .comma format.2) >>= fun comma => outcome (sum comma.2) >>= fun value =>
      outcome (expect .rparen value.2) >>= fun closing =>
      outcome (expect .semicolon closing.2) >>= fun stop =>
      .ok (.write format.1.lexeme value.1, stop.2) :=
  outcome_bind fun _ => outcome_bind fun _ => outcome_bind fun _ => outcome_bind fun _ =>
    outcome_bind fun _ => outcome_bind fun _ => rfl

/-- An output statement is a format and a sum in parentheses, and a semicolon. -/
theorem outcome_output_eq_ok {s : Stmt} :
    outcome (output ts) = .ok (s, rest) ↔
      ∃ opening format comma closing stop us e, ts = opening :: format :: comma :: us ∧
        opening.kind = .lparen ∧ format.kind = .string ∧ comma.kind = .comma ∧
        outcome (sum us) = .ok (e, closing :: stop :: rest) ∧ closing.kind = .rparen ∧
        stop.kind = .semicolon ∧ s = .write format.lexeme e := by
  simp only [outcome_output, bind_eq_ok_iff, Prod.exists, outcome_expect_eq_ok]
  constructor
  · rintro ⟨opening, _, ⟨rfl, ho⟩, format, _, ⟨rfl, hf⟩, comma, us, ⟨rfl, hm⟩, e, _, he, closing, _,
      ⟨rfl, hc⟩, stop, _, ⟨rfl, hs⟩, h⟩
    cases h
    exact ⟨opening, format, comma, closing, stop, us, e, rfl, ho, hf, hm, he, hc, hs, rfl⟩
  · rintro ⟨opening, format, comma, closing, stop, us, e, rfl, ho, hf, hm, he, hc, hs, rfl⟩
    exact ⟨opening, _, ⟨rfl, ho⟩, format, _, ⟨rfl, hf⟩, comma, us, ⟨rfl, hm⟩, e, _, he, closing, _,
      ⟨rfl, hc⟩, stop, rest, ⟨rfl, hs⟩, rfl⟩

theorem outcome_input (ts : List Token) :
    outcome (input ts) = outcome (expect .scanAddr ts) >>= fun opening =>
      outcome (expect .identifier opening.2) >>= fun name =>
      outcome (expect .rparen name.2) >>= fun closing =>
      outcome (expect .semicolon closing.2) >>= fun stop => .ok (.read name.1.lexeme, stop.2) :=
  outcome_bind fun _ => outcome_bind fun _ => outcome_bind fun _ => outcome_bind fun _ => rfl

/-- An input statement is a name between `(&` and a parenthesis, and a semicolon. -/
theorem outcome_input_eq_ok {s : Stmt} :
    outcome (input ts) = .ok (s, rest) ↔
      ∃ opening name closing stop, ts = opening :: name :: closing :: stop :: rest ∧
        opening.kind = .scanAddr ∧ name.kind = .identifier ∧ closing.kind = .rparen ∧
        stop.kind = .semicolon ∧ s = .read name.lexeme := by
  simp only [outcome_input, bind_eq_ok_iff, Prod.exists, outcome_expect_eq_ok]
  constructor
  · rintro ⟨opening, _, ⟨rfl, ho⟩, name, _, ⟨rfl, hn⟩, closing, _, ⟨rfl, hc⟩, stop, _, ⟨rfl, hs⟩, h⟩
    cases h
    exact ⟨opening, name, closing, stop, rfl, ho, hn, hc, hs, rfl⟩
  · rintro ⟨opening, name, closing, stop, rfl, ho, hn, hc, hs, rfl⟩
    exact ⟨opening, _, ⟨rfl, ho⟩, name, _, ⟨rfl, hn⟩, closing, _, ⟨rfl, hc⟩, stop, rest, ⟨rfl, hs⟩,
      rfl⟩

theorem outcome_evaluation (ts : List Token) :
    outcome (evaluation ts) = outcome (sum ts) >>= fun value =>
      outcome (expect .semicolon value.2) >>= fun stop => .ok (.eval value.1, stop.2) :=
  outcome_bind fun _ => outcome_bind fun _ => rfl

/-- An expression that stands as a statement is a sum and a semicolon. -/
theorem outcome_evaluation_eq_ok {s : Stmt} :
    outcome (evaluation ts) = .ok (s, rest) ↔
      ∃ stop e, outcome (sum ts) = .ok (e, stop :: rest) ∧ stop.kind = .semicolon ∧
        s = .eval e := by
  simp only [outcome_evaluation, bind_eq_ok_iff, Prod.exists, outcome_expect_eq_ok]
  constructor
  · rintro ⟨e, _, he, stop, _, ⟨rfl, hs⟩, h⟩
    cases h
    exact ⟨stop, e, he, hs, rfl⟩
  · rintro ⟨stop, e, he, hs, rfl⟩
    exact ⟨e, _, he, stop, rest, ⟨rfl, hs⟩, rfl⟩

/-- The keyword before a statement only widens the bound on its rest. -/
theorem outcome_afterKeyword (r : Except Mismatch (Reading Stmt n)) :
    outcome (statement.afterKeyword r) = outcome r := by
  cases r <;> rfl

@[simp] theorem outcome_statement_nil :
    outcome (statement []) = .error ⟨statementOpeners, []⟩ := rfl

theorem outcome_statement_define (h : t.kind = .define) :
    outcome (statement (t :: rest)) = outcome (definition rest) := by
  simp only [statement]
  split
  case h_1 => exact outcome_afterKeyword _
  all_goals simp_all

theorem outcome_statement_write (h : t.kind = .write) :
    outcome (statement (t :: rest)) = outcome (output rest) := by
  simp only [statement]
  split
  case h_2 => exact outcome_afterKeyword _
  all_goals simp_all

theorem outcome_statement_read (h : t.kind = .read) :
    outcome (statement (t :: rest)) = outcome (input rest) := by
  simp only [statement]
  split
  case h_3 => exact outcome_afterKeyword _
  all_goals simp_all

theorem outcome_statement_opener (h : t.kind ∈ operandOpeners) :
    outcome (statement (t :: rest)) = outcome (evaluation (t :: rest)) := by
  simp only [statement]
  split <;> simp_all [operandOpeners]

theorem outcome_statement_other (h : t.kind ∉ statementOpeners) :
    outcome (statement (t :: rest)) = .error ⟨statementOpeners, t :: rest⟩ := by
  simp only [statement]
  split <;> simp_all [statementOpeners]

/-- Statements are read one by one up to the end of the input. -/
theorem statements_eq (ts : List Token) :
    statements ts = outcome (statement ts) >>= fun first =>
      if atEnd first.2 then .ok [first.1]
      else statements first.2 >>= fun others => .ok (first.1 :: others) := by
  rw [statements]
  cases statement ts <;> rfl

end

end Parser

end Arrowlet
