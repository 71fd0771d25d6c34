import Arrowlet.Proofs.Program.Recognition

/-!
# How far a reader looks ahead

`Parser.LooksAhead read ts`: a reader that stops before a token of `ts`, with what it has read or
with a mismatch, does the same on every list that agrees with `ts` up to that token. This is shown
along the descent for the readers of expressions (`sum_looksAhead`), and from them for that of
statements (`statement_looksAhead`).
-/

namespace Arrowlet

namespace Parser

section
variable {α β : Type} {ts us : List Token} {t : Token}

/-- The tokens from the place on where a reader stops. -/
def stopsAt : Except Mismatch (α × List Token) → List Token
  | .ok (_, rest) => rest
  | .error m => m.rest

/-- A result with other tokens from the place on where the reader stops. -/
def withRest (rest : List Token) :
    Except Mismatch (α × List Token) → Except Mismatch (α × List Token)
  | .ok (a, _) => .ok (a, rest)
  | .error m => .error ⟨m.expected, rest⟩

/-- A reader that stops before a token of `ts` does the same on every list that agrees with `ts` up
to that token and with it. -/
def LooksAhead (read : List Token → Except Mismatch (α × List Token)) (ts : List Token) : Prop :=
  ∀ t rest, stopsAt (read ts) = t :: rest → ∃ us, ts = us ++ t :: rest ∧
    ∀ rest', read (us ++ t :: rest') = withRest (t :: rest') (read ts)

/-- Lists that agree up to a token and with it begin with the same token. -/
theorem exists_cons_of_agree {first : Token} {rest ts : List Token}
    (h : first :: ts = us ++ t :: rest) (rest' : List Token) :
    ∃ ts', us ++ t :: rest' = first :: ts' := by
  cases us with
  | nil =>
    cases h
    exact ⟨rest', rfl⟩
  | cons u us =>
    cases h
    exact ⟨us ++ t :: rest', rfl⟩

section
variable {read read' : List Token → Except Mismatch (α × List Token)}

/-- A reader that has come to the end of the list stops before no token. -/
theorem LooksAhead.atNil (h : stopsAt (read ts) = []) : LooksAhead read ts := by
  intro t rest hstop
  rw [h] at hstop
  cases hstop

/-- A reader that stops before the first token looks at no other. -/
theorem LooksAhead.atHead (hstop : stopsAt (read (t :: us)) = t :: us)
    (h : ∀ rest', read (t :: rest') = withRest (t :: rest') (read (t :: us))) :
    LooksAhead read (t :: us) := by
  intro u rest hu
  rw [hstop] at hu
  cases hu
  exact ⟨[], rfl, h⟩

/-- A reader that takes the first token looks ahead as the reader of the others does. -/
theorem LooksAhead.cons (heq : ∀ rest, read (t :: rest) = read' rest) (h : LooksAhead read' us) :
    LooksAhead read (t :: us) := by
  intro u rest hu
  rw [heq] at hu ⊢
  obtain ⟨vs, rfl, hvs⟩ := h u rest hu
  exact ⟨t :: vs, rfl, fun rest' => (heq _).trans (hvs rest')⟩

/-- Only what a reader does on lists with the same first token matters. -/
theorem LooksAhead.of_head (heq : ∀ rest, read (t :: rest) = read' (t :: rest))
    (h : LooksAhead read' (t :: us)) : LooksAhead read (t :: us) := by
  intro u rest hu
  rw [heq] at hu ⊢
  obtain ⟨vs, hvs, hread⟩ := h u rest hu
  refine ⟨vs, hvs, fun rest' => ?_⟩
  obtain ⟨ws, hws⟩ := exists_cons_of_agree hvs rest'
  rw [← hread rest', hws]
  exact heq ws

theorem LooksAhead.pure (a : α) : LooksAhead (fun ts => .ok (a, ts)) ts :=
  fun _ _ h => ⟨[], h, fun _ => rfl⟩

/-- A reader that goes on where another one stops looks no further than both do. -/
theorem LooksAhead.bind {f : α × List Token → Except Mismatch (β × List Token)}
    (hread : LooksAhead read ts)
    (hf : ∀ a rest, read ts = .ok (a, rest) → LooksAhead (fun us => f (a, us)) rest) :
    LooksAhead (fun ts => read ts >>= f) ts := by
  intro t rest hstop
  dsimp only at hstop ⊢
  cases hr : read ts with
  | error m =>
    rw [hr] at hstop
    obtain ⟨us, hts, hus⟩ := hread t rest (by rw [hr]; exact hstop)
    exact ⟨us, hts, fun rest' => by rw [hus rest', hr]; rfl⟩
  | ok reading =>
    obtain ⟨a, mid⟩ := reading
    rw [hr] at hstop
    obtain ⟨vs, hmid, hvs⟩ := hf a mid hr t rest hstop
    -- What the second reader is given begins with the token that the first one stops before.
    cases mid with
    | nil => simp at hmid
    | cons first mid =>
      obtain ⟨us, hts, hus⟩ := hread first mid (by rw [hr]; rfl)
      refine ⟨us ++ vs, by rw [hts, hmid, List.append_assoc], fun rest' => ?_⟩
      obtain ⟨mid', hmid'⟩ := exists_cons_of_agree hmid rest'
      have hfirst : read (us ++ first :: mid') = .ok (a, first :: mid') := by rw [hus, hr]; rfl
      rw [List.append_assoc, hmid', hfirst]
      rw [← hmid']
      exact hvs rest'

end

theorem expect_looksAhead (kind : Kind) (ts : List Token) :
    LooksAhead (fun ts => outcome (expect kind ts)) ts := by
  cases ts with
  | nil => exact .atNil rfl
  | cons t us =>
    by_cases ht : t.kind = kind
    · exact .cons (fun rest => by rw [outcome_expect_cons, if_pos ht]) (.pure t)
    · have heq : ∀ rest, outcome (expect kind (t :: rest)) = .error ⟨[kind], t :: rest⟩ :=
        fun rest => by rw [outcome_expect_cons, if_neg ht]
      refine .atHead ?_ fun rest => ?_
      · rw [heq]; rfl
      · rw [heq, heq]; rfl

/-- A reader that takes a token and then goes on looks no further than it does then. -/
theorem LooksAhead.expect {kind : Kind} {f : Token × List Token → Except Mismatch (β × List Token)}
    (hf : ∀ t rest, LooksAhead (fun us => f (t, us)) rest) :
    LooksAhead (fun ts => outcome (expect kind ts) >>= f) ts :=
  .bind (expect_looksAhead kind ts) fun t rest _ => hf t rest

theorem operand_looksAhead
    (ih : ∀ us, us.length < ts.length → LooksAhead (fun ts => outcome (sum ts)) us) :
    LooksAhead (fun ts => outcome (operand ts)) ts := by
  cases ts with
  | nil => exact .atNil (by rw [outcome_operand_nil]; rfl)
  | cons t us =>
    by_cases ht : t.kind ∈ operandOpeners
    · simp only [operandOpeners, List.mem_cons, List.not_mem_nil, or_false] at ht
      rcases ht with ht | ht | ht
      · exact .cons (fun _ => outcome_operand_number ht) (.pure _)
      · exact .cons (fun _ => outcome_operand_name ht) (.pure _)
      · exact .cons (fun _ => outcome_operand_lparen ht)
          (.bind (ih us (by simp)) fun inner rest _ => .expect fun _ _ => .pure _)
    · refine .atHead ?_ fun rest => ?_
      · rw [outcome_operand_other ht]; rfl
      · rw [outcome_operand_other ht, outcome_operand_other ht]; rfl

theorem productTail_looksAhead
    (hoperand : ∀ us, us.length < ts.length → LooksAhead (fun ts => outcome (operand ts)) us)
    (ih : ∀ us, us.length < ts.length →
      ∀ left, LooksAhead (fun ts => outcome (productTail left ts)) us) (left : Expr) :
    LooksAhead (fun ts => outcome (productTail left ts)) ts := by
  cases ts with
  | nil => exact .atNil (by rw [outcome_productTail_nil]; rfl)
  | cons t us =>
    by_cases ht : t.kind.isMultiplicative
    · refine .cons (fun _ => outcome_productTail_operator ht)
        (.bind (hoperand us (by simp)) fun right rest hright => ih rest ?_ _)
      exact Nat.lt_succ_of_lt (length_lt_of_outcome hright)
    · refine .atHead ?_ fun rest => ?_
      · rw [outcome_productTail_other ht]; rfl
      · rw [outcome_productTail_other ht, outcome_productTail_other ht]; rfl

theorem sumTail_looksAhead
    (hproduct : ∀ us, us.length < ts.length → LooksAhead (fun ts => outcome (product ts)) us)
    (ih : ∀ us, us.length < ts.length →
      ∀ left, LooksAhead (fun ts => outcome (sumTail left ts)) us) (left : Expr) :
    LooksAhead (fun ts => outcome (sumTail left ts)) ts := by
  cases ts with
  | nil => exact .atNil (by rw [outcome_sumTail_nil]; rfl)
  | cons t us =>
    by_cases ht : t.kind.isAdditive
    · refine .cons (fun _ => outcome_sumTail_operator ht)
        (.bind (hproduct us (by simp)) fun right rest hright => ih rest ?_ _)
      exact Nat.lt_succ_of_lt (length_lt_of_outcome hright)
    · refine .atHead ?_ fun rest => ?_
      · rw [outcome_sumTail_other ht]; rfl
      · rw [outcome_sumTail_other ht, outcome_sumTail_other ht]; rfl

/-- Reading a sum looks no further than the token that it stops before. -/
theorem sum_looksAhead (ts : List Token) : LooksAhead (fun ts => outcome (sum ts)) ts := by
  refine (descent_induction (fun ts => operand_looksAhead) (fun ts => productTail_looksAhead)
    (fun ts hoperand htail => ?_) (fun ts => sumTail_looksAhead)
    (fun ts hproduct htail => ?_) ts).2.2.2.2
  · simp only [outcome_product]
    exact .bind hoperand fun first rest h => htail rest (length_lt_of_outcome h) first
  · simp only [outcome_sum]
    exact .bind hproduct fun first rest h => htail rest (length_lt_of_outcome h) first

theorem definition_looksAhead (ts : List Token) :
    LooksAhead (fun ts => outcome (definition ts)) ts := by
  simp only [outcome_definition]
  exact .expect fun _ _ => .expect fun _ _ => .bind (sum_looksAhead _) fun _ _ _ =>
    .expect fun _ _ => .pure _

theorem output_looksAhead (ts : List Token) : LooksAhead (fun ts => outcome (output ts)) ts := by
  simp only [outcome_output]
  exact .expect fun _ _ => .expect fun _ _ => .expect fun _ _ => .bind (sum_looksAhead _)
    fun _ _ _ => .expect fun _ _ => .expect fun _ _ => .pure _

theorem input_looksAhead (ts : List Token) : LooksAhead (fun ts => outcome (input ts)) ts := by
  simp only [outcome_input]
  exact .expect fun _ _ => .expect fun _ _ => .expect fun _ _ => .expect fun _ _ => .pure _

theorem evaluation_looksAhead (ts : List Token) :
    LooksAhead (fun ts => outcome (evaluation ts)) ts := by
  simp only [outcome_evaluation]
  exact .bind (sum_looksAhead _) fun _ _ _ => .expect fun _ _ => .pure _

/-- Reading a statement looks no further than the token that it stops before. -/
theorem statement_looksAhead (ts : List Token) :
    LooksAhead (fun ts => outcome (statement ts)) ts := by
  cases ts with
  | nil => exact .atNil rfl
  | cons t us =>
    by_cases ht : t.kind ∈ statementOpeners
    · simp only [statementOpeners, List.mem_cons, List.not_mem_nil, or_false] at ht
      rcases ht with ht | ht | ht | ht
      · exact .cons (fun _ => outcome_statement_define ht) (definition_looksAhead us)
      · exact .cons (fun _ => outcome_statement_write ht) (output_looksAhead us)
      · exact .cons (fun _ => outcome_statement_read ht) (input_looksAhead us)
      · have ht' : t.kind ∈ operandOpeners := by simpa [operandOpeners] using ht
        exact .of_head (fun _ => outcome_statement_opener ht') (evaluation_looksAhead _)
    · refine .atHead ?_ fun rest => ?_
      · rw [outcome_statement_other ht]; rfl
      · rw [outcome_statement_other ht, outcome_statement_other ht]; rfl

end

end Parser

end Arrowlet
