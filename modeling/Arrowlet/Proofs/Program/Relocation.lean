import Arrowlet.Proofs.Program.FirstMisfit

/-!
# Parsing does not look at positions

`Token.relocate move` puts a token at another position. A reader that is given the tokens there does
what it does on the tokens where they were (`Parser.Relocates`): it returns the same value, or
expects the same kinds, and leaves the same tokens at their new positions. This is shown along the
descent (`Parser.sum_relocates`) and carried over to statements, so that parsing fails at other
positions exactly as it fails where the tokens were (`parse_relocate`).

Behind tokens that derive a program, parsing goes on as if the others stood alone
(`Grammar.Program.parse_append`).
-/

namespace Arrowlet

/-- A token at another position. -/
def Token.relocate (move : Position → Position) (t : Token) : Token :=
  ⟨t.kind, t.lexeme, move t.pos⟩

/-- An error whose token is at another position. -/
def ParseError.relocate (move : Position → Position) (e : ParseError) : ParseError :=
  ⟨e.expected, e.found.relocate move⟩

namespace Parser

variable {α β : Type} {move : Position → Position} {ts : List Token} {t : Token}

/-! ## Readers -/

/-- What a reader returns, with the tokens that it leaves at other positions. -/
def relocate (move : Position → Position) :
    Except Mismatch (α × List Token) → Except Mismatch (α × List Token)
  | .ok (a, rest) => .ok (a, rest.map (Token.relocate move))
  | .error m => .error ⟨m.expected, m.rest.map (Token.relocate move)⟩

/-- A reader does on tokens at other positions what it does on `ts`. -/
def Relocates (move : Position → Position) (read : List Token → Except Mismatch (α × List Token))
    (ts : List Token) : Prop :=
  read (ts.map (Token.relocate move)) = relocate move (read ts)

section
variable {read read' : List Token → Except Mismatch (α × List Token)} {us : List Token}

theorem Relocates.pure (a : α) : Relocates move (fun ts => .ok (a, ts)) ts := rfl

theorem Relocates.fail (expected : List Kind) :
    Relocates move (fun ts => (.error ⟨expected, ts⟩ : Except Mismatch (α × List Token))) ts := rfl

/-- A reader that looks at the kind and the lexeme of the first token and goes on behind it. -/
theorem Relocates.cons (h : Relocates move read' us)
    (heq : ∀ t' : Token, t'.kind = t.kind → t'.lexeme = t.lexeme →
      ∀ rest, read (t' :: rest) = read' rest) : Relocates move read (t :: us) := by
  rw [Relocates, List.map_cons, heq (t.relocate move) rfl rfl, heq t rfl rfl]
  exact h

/-- A reader that looks at the kind of the first token and goes on before it. -/
theorem Relocates.of_head (h : Relocates move read' (t :: us))
    (heq : ∀ t' : Token, t'.kind = t.kind → ∀ rest, read (t' :: rest) = read' (t' :: rest)) :
    Relocates move read (t :: us) := by
  rw [Relocates, List.map_cons, heq (t.relocate move) rfl, heq t rfl]
  exact h

/-- A reader that goes on where another one stops. -/
theorem Relocates.bind {f : α × List Token → Except Mismatch (β × List Token)}
    (hread : Relocates move read ts)
    (hf : ∀ a rest, read ts = .ok (a, rest) → Relocates move (fun us => f (a, us)) rest) :
    Relocates move (fun ts => read ts >>= f) ts := by
  show read _ >>= f = relocate move (read ts >>= f)
  rw [hread]
  cases hr : read ts with
  | error m => rfl
  | ok reading => exact hf reading.1 reading.2 hr

/-- A reader that takes a token and goes on with its kind and its lexeme. -/
theorem Relocates.expect {kind : Kind} {f : Token × List Token → Except Mismatch (β × List Token)}
    (hpos : ∀ t us, f (t.relocate move, us) = f (t, us))
    (hf : ∀ t rest, Relocates move (fun us => f (t, us)) rest) :
    Relocates move (fun ts => outcome (expect kind ts) >>= f) ts := by
  cases ts with
  | nil => rfl
  | cons t us =>
    by_cases ht : t.kind = kind
    · show outcome (expect kind (t.relocate move :: _)) >>= f = _
      rw [outcome_expect_cons, if_pos (show (t.relocate move).kind = kind from ht)]
      refine ((hpos t _).trans (hf t us)).trans (congrArg _ ?_)
      show f (t, us) = outcome (expect kind (t :: us)) >>= f
      rw [outcome_expect_cons, if_pos ht]
      rfl
    · refine Relocates.of_head (.fail [kind]) fun t' ht' rest => ?_
      rw [outcome_expect_cons, if_neg (by rwa [ht'])]
      rfl

end

/-! ## Expressions -/

theorem operand_relocates
    (ih : ∀ us, us.length < ts.length → Relocates move (fun ts => outcome (sum ts)) us) :
    Relocates move (fun ts => outcome (operand ts)) ts := by
  cases ts with
  | nil =>
    show outcome (operand []) = relocate move (outcome (operand []))
    rw [outcome_operand_nil]
    rfl
  | cons t us =>
    by_cases ht : t.kind ∈ operandOpeners
    · simp only [operandOpeners, List.mem_cons, List.not_mem_nil, or_false] at ht
      rcases ht with ht | ht | ht
      · refine .cons (.pure (.number t.lexeme)) fun t' hkind hlexeme rest => ?_
        rw [outcome_operand_number (hkind.trans ht), hlexeme]
      · refine .cons (.pure (.name t.lexeme)) fun t' hkind hlexeme rest => ?_
        rw [outcome_operand_name (hkind.trans ht), hlexeme]
      · have hgroup : Relocates move (fun ts => outcome (sum ts) >>= fun inner =>
            outcome (expect .rparen inner.2) >>= fun closing =>
            .ok (Expr.group inner.1, closing.2)) us :=
          .bind (ih us (by simp)) fun _ _ _ => .expect (fun _ _ => rfl) fun _ _ => .pure _
        exact hgroup.cons fun t' hkind _ rest => outcome_operand_lparen (hkind.trans ht)
    · refine .of_head (.fail operandOpeners) fun t' hkind rest => ?_
      rw [outcome_operand_other (by rwa [hkind])]

/-- A reader that goes on from a left operand over operators, each with an operand behind it. -/
theorem Relocates.tail {isOperator : Kind → Bool}
    {read : List Token → Except Mismatch (Expr × List Token)}
    (tail : Expr → List Token → Except Mismatch (Expr × List Token))
    (hnil : ∀ left, tail left [] = .ok (left, []))
    (hoperator : ∀ left (t : Token) us, isOperator t.kind → tail left (t :: us) =
      read us >>= fun right => tail (.binary t.kind left right.1) right.2)
    (hother : ∀ left (t : Token) us, ¬ isOperator t.kind →
      tail left (t :: us) = .ok (left, t :: us))
    (hlt : ∀ us right rest, read us = .ok (right, rest) → rest.length < us.length)
    (hread : ∀ us, us.length < ts.length → Relocates move read us)
    (ih : ∀ us, us.length < ts.length → ∀ left, Relocates move (tail left) us) (left : Expr) :
    Relocates move (tail left) ts := by
  cases ts with
  | nil =>
    rw [Relocates, List.map_nil, hnil]
    rfl
  | cons t us =>
    by_cases ht : isOperator t.kind
    · have htail : Relocates move (fun ts => read ts >>= fun right =>
          tail (.binary t.kind left right.1) right.2) us :=
        .bind (hread us (by simp)) fun right rest hright =>
          ih rest (Nat.lt_succ_of_lt (hlt us right rest hright)) _
      refine htail.cons fun t' hkind _ rest => ?_
      rw [hoperator left t' rest (by rwa [hkind]), hkind]
    · exact .of_head (.pure left) fun t' hkind rest => hother left t' rest (by rwa [hkind])

theorem productTail_relocates
    (hoperand : ∀ us, us.length < ts.length → Relocates move (fun ts => outcome (operand ts)) us)
    (ih : ∀ us, us.length < ts.length →
      ∀ left, Relocates move (fun ts => outcome (productTail left ts)) us) (left : Expr) :
    Relocates move (fun ts => outcome (productTail left ts)) ts :=
  .tail (fun left ts => outcome (productTail left ts)) (fun _ => outcome_productTail_nil)
    (fun _ _ _ => outcome_productTail_operator) (fun _ _ _ => outcome_productTail_other)
    (fun _ _ _ => length_lt_of_outcome) hoperand ih left

theorem sumTail_relocates
    (hproduct : ∀ us, us.length < ts.length → Relocates move (fun ts => outcome (product ts)) us)
    (ih : ∀ us, us.length < ts.length →
      ∀ left, Relocates move (fun ts => outcome (sumTail left ts)) us) (left : Expr) :
    Relocates move (fun ts => outcome (sumTail left ts)) ts :=
  .tail (fun left ts => outcome (sumTail left ts)) (fun _ => outcome_sumTail_nil)
    (fun _ _ _ => outcome_sumTail_operator) (fun _ _ _ => outcome_sumTail_other)
    (fun _ _ _ => length_lt_of_outcome) hproduct ih left

/-- Reading a sum does not look at positions. -/
theorem sum_relocates (move : Position → Position) (ts : List Token) :
    Relocates move (fun ts => outcome (sum ts)) ts := by
  refine (descent_induction (fun ts => operand_relocates) (fun ts => productTail_relocates)
    (fun ts hoperand htail => ?_) (@sumTail_relocates move)
    (fun ts hproduct htail => ?_) ts).2.2.2.2
  · simp only [outcome_product]
    exact hoperand.bind fun first rest h => htail rest (length_lt_of_outcome h) first
  · simp only [outcome_sum]
    exact hproduct.bind fun first rest h => htail rest (length_lt_of_outcome h) first

/-! ## Statements -/

theorem definition_relocates (move : Position → Position) (ts : List Token) :
    Relocates move (fun ts => outcome (definition ts)) ts := by
  simp only [outcome_definition]
  exact .expect (fun _ _ => rfl) fun _ _ => .expect (fun _ _ => rfl) fun _ _ =>
    (sum_relocates move _).bind fun _ _ _ => .expect (fun _ _ => rfl) fun _ _ => .pure _

theorem output_relocates (move : Position → Position) (ts : List Token) :
    Relocates move (fun ts => outcome (output ts)) ts := by
  simp only [outcome_output]
  exact .expect (fun _ _ => rfl) fun _ _ => .expect (fun _ _ => rfl) fun _ _ =>
    .expect (fun _ _ => rfl) fun _ _ => (sum_relocates move _).bind fun _ _ _ =>
    .expect (fun _ _ => rfl) fun _ _ => .expect (fun _ _ => rfl) fun _ _ => .pure _

theorem input_relocates (move : Position → Position) (ts : List Token) :
    Relocates move (fun ts => outcome (input ts)) ts := by
  simp only [outcome_input]
  exact .expect (fun _ _ => rfl) fun _ _ => .expect (fun _ _ => rfl) fun _ _ =>
    .expect (fun _ _ => rfl) fun _ _ => .expect (fun _ _ => rfl) fun _ _ => .pure _

theorem evaluation_relocates (move : Position → Position) (ts : List Token) :
    Relocates move (fun ts => outcome (evaluation ts)) ts := by
  simp only [outcome_evaluation]
  exact (sum_relocates move _).bind fun _ _ _ => .expect (fun _ _ => rfl) fun _ _ => .pure _

/-- Reading a statement does not look at positions. -/
theorem statement_relocates (move : Position → Position) (ts : List Token) :
    Relocates move (fun ts => outcome (statement ts)) ts := by
  cases ts with
  | nil => rfl
  | cons t us =>
    by_cases ht : t.kind ∈ statementOpeners
    · simp only [statementOpeners, List.mem_cons, List.not_mem_nil, or_false] at ht
      rcases ht with ht | ht | ht | ht
      · exact (definition_relocates move us).cons fun t' hkind _ rest =>
          outcome_statement_define (hkind.trans ht)
      · exact (output_relocates move us).cons fun t' hkind _ rest =>
          outcome_statement_write (hkind.trans ht)
      · exact (input_relocates move us).cons fun t' hkind _ rest =>
          outcome_statement_read (hkind.trans ht)
      · have hopens : t.kind ∈ operandOpeners := by simpa [operandOpeners] using ht
        exact (evaluation_relocates move _).of_head fun t' hkind rest =>
          outcome_statement_opener (by rwa [hkind])
    · refine .of_head (.fail statementOpeners) fun t' hkind rest => ?_
      rw [outcome_statement_other (by rwa [hkind])]

theorem atEnd_relocate (move : Position → Position) (ts : List Token) :
    atEnd (ts.map (Token.relocate move)) = atEnd ts := by
  cases ts <;> rfl

/-- Reading statements does not look at positions. -/
theorem statements_relocate (move : Position → Position) (ts : List Token) :
    statements (ts.map (Token.relocate move)) =
      (statements ts).mapError fun m => ⟨m.expected, m.rest.map (Token.relocate move)⟩ := by
  induction hn : ts.length using Nat.strongRecOn generalizing ts with
  | ind n ih =>
    subst hn
    have hfirst : outcome (statement (ts.map (Token.relocate move))) =
        relocate move (outcome (statement ts)) := statement_relocates move ts
    rw [statements_eq, statements_eq, hfirst]
    cases hs : outcome (statement ts) with
    | error m => rfl
    | ok reading =>
      obtain ⟨s, rest⟩ := reading
      have hothers := ih _ (length_lt_of_outcome hs) rest rfl
      show (if atEnd (rest.map (Token.relocate move)) then .ok [s]
        else statements (rest.map (Token.relocate move)) >>= fun others => .ok (s :: others)) =
        Except.mapError _ (if atEnd rest then .ok [s]
          else statements rest >>= fun others => .ok (s :: others))
      rw [atEnd_relocate, hothers]
      split
      · rfl
      · cases statements rest <;> rfl

end Parser

open Arrowlet.Parser

/-! ## Programs -/

/-- **Parsing does not look at positions.** Tokens at other positions parse as the same program, or
fail with the same expectation at the same token, where this is now. -/
theorem parse_relocate (move : Position → Position) {ts : List Token} (h : ts ≠ []) :
    parse (ts.map (Token.relocate move)) = (parse ts).mapError (ParseError.relocate move) := by
  have hend : endToken (ts.map (Token.relocate move)) = (endToken ts).relocate move := by
    rw [endToken, endToken, List.getLast?_map, List.getLast?_eq_some_getLast h]
    rfl
  rw [parse, parse, statements_relocate]
  cases statements ts with
  | ok p => rfl
  | error m =>
    show Except.error _ = Except.error _
    rw [hend]
    cases hrest : m.rest <;> simp [hrest, ParseError.relocate]

/-- Behind a derived program, tokens parse as if they stood alone. -/
theorem Grammar.Program.parse_append {ts us : List Token} {p : Arrowlet.Program}
    (h : Grammar.Program ts p) (hus : atEnd us = false) :
    parse (ts ++ us) = (parse us).map (p ++ ·) := by
  have hne : us ≠ [] := by
    rintro rfl
    cases hus
  have hend : endToken (ts ++ us) = endToken us := by
    rw [endToken, endToken, List.getLast?_append, List.getLast?_eq_some_getLast hne]
    rfl
  rw [parse, parse, h.statements_append hus, hend]
  cases statements us <;> rfl

end Arrowlet
