import Arrowlet.Proofs.Program.Progress

/-!
# How deep calls of the readers nest

The readers of expressions call each other, and a group in parentheses leads from an operand back to
a sum. `Parser.Call` lists their calls, and `Parser.Call.body` says what a call does when the calls
that it makes are answered by a given function. `Parser.Call.within n` nests calls at most `n` deep
and gives nothing where that is not enough, so it needs no reason to end.

A reader called with `k` tokens needs at most `3 * k + 3` nested calls, whether it succeeds or fails
(`Call.run_within_eq`, `Call.depth_le`): a call either goes down in the grammar or has fewer tokens.
-/

namespace Arrowlet

namespace Parser

/-- A result, a mismatch, or nothing if calls are nested too deeply. -/
abbrev Answer := ExceptT Mismatch Option

/-- A call of a reader of expressions. -/
inductive Call where
  | operand (ts : List Token)
  | productTail (left : Expr) (ts : List Token)
  | product (ts : List Token)
  | sumTail (left : Expr) (ts : List Token)
  | sum (ts : List Token)

/-- What a loop over operators does in a round: it reads an operand after an operator and goes on,
or it stops. -/
def tailBody (isOp : Kind → Bool) (operand : List Token → Answer (Expr × List Token))
    (tail : Expr → List Token → Answer (Expr × List Token)) (left : Expr) :
    List Token → Answer (Expr × List Token)
  | [] => pure (left, [])
  | t :: rest =>
    if isOp t.kind then do
      let right ← operand rest
      tail (.binary t.kind left right.1) right.2
    else pure (left, t :: rest)

namespace Call

/-- The tokens that the reader is given. -/
def tokens : Call → List Token
  | operand ts | productTail _ ts | product ts | sumTail _ ts | sum ts => ts

/-- What the reader returns. -/
def outcome : Call → Except Mismatch (Expr × List Token)
  | operand ts => Parser.outcome (Parser.operand ts)
  | productTail left ts => Parser.outcome (Parser.productTail left ts)
  | product ts => Parser.outcome (Parser.product ts)
  | sumTail left ts => Parser.outcome (Parser.sumTail left ts)
  | sum ts => Parser.outcome (Parser.sum ts)

/-- What a call does when the calls that it makes are answered by `answer`. -/
def body (answer : Call → Answer (Expr × List Token)) : Call → Answer (Expr × List Token)
  | operand [] => throw ⟨operandOpeners, []⟩
  | operand (t :: rest) =>
    match t.kind with
    | .number => pure (.number t.lexeme, rest)
    | .identifier => pure (.name t.lexeme, rest)
    | .lparen => do
      let inner ← answer (sum rest)
      let closing ← ExceptT.mk (some (Parser.outcome (expect .rparen inner.2)))
      return (.group inner.1, closing.2)
    | _ => throw ⟨operandOpeners, t :: rest⟩
  | productTail left ts =>
    tailBody Kind.isMultiplicative (fun us => answer (operand us))
      (fun e us => answer (productTail e us)) left ts
  | product ts => do
    let first ← answer (operand ts)
    answer (productTail first.1 first.2)
  | sumTail left ts =>
    tailBody Kind.isAdditive (fun us => answer (product us)) (fun e us => answer (sumTail e us))
      left ts
  | sum ts => do
    let first ← answer (product ts)
    answer (sumTail first.1 first.2)

/-- The answer to a call with calls nested at most `n` deep. -/
def within : Nat → Call → Answer (Expr × List Token)
  | 0 => fun _ => ExceptT.mk none
  | n + 1 => body (within n)

/-- A depth that is enough for a call. -/
def depth : Call → Nat
  | operand ts | productTail _ ts | sumTail _ ts => 3 * ts.length + 1
  | product ts => 3 * ts.length + 2
  | sum ts => 3 * ts.length + 3

theorem depth_le (c : Call) : c.depth ≤ 3 * c.tokens.length + 3 := by
  cases c <;> simp only [depth, tokens] <;> omega

end Call

/-- What goes on after an answer has an answer if both parts have. -/
theorem run_bind_eq {α β : Type} {x : Answer α} {r : Except Mismatch α} {f : α → Answer β}
    {g : α → Except Mismatch β} (hx : x.run = some r)
    (hf : ∀ a, r = .ok a → (f a).run = some (g a)) : (x >>= f).run = some (r >>= g) := by
  obtain rfl : x = ExceptT.mk (some r) := hx
  cases r with
  | error m => rfl
  | ok a => exact hf a rfl

section
variable {ts : List Token} {left : Expr}

/-- A round of a loop over operators does what the loop does, if the calls on shorter lists do. -/
theorem run_tailBody_eq {isOp : Kind → Bool}
    {read : List Token → Except Mismatch (Expr × List Token)}
    {tail : Expr → List Token → Except Mismatch (Expr × List Token)}
    {operand : List Token → Answer (Expr × List Token)}
    {again : Expr → List Token → Answer (Expr × List Token)}
    (hloop : OperatorLoop isOp read tail)
    (hread : ∀ {ts e rest}, read ts = .ok (e, rest) → Takes 1 ts rest)
    (hoperand : ∀ us, us.length < ts.length → (operand us).run = some (read us))
    (hagain : ∀ e us, us.length < ts.length → (again e us).run = some (tail e us)) :
    (tailBody isOp operand again left ts).run = some (tail left ts) := by
  cases ts with
  | nil =>
    rw [hloop.stop (by simp [NotNext])]
    rfl
  | cons t ts =>
    rw [tailBody]
    split
    · next hop =>
      rw [hloop.operator hop]
      refine run_bind_eq (hoperand ts (Nat.lt_succ_self _)) fun right hright => ?_
      have hle := (hread hright).add_length_le
      exact hagain _ right.2 (by rw [List.length_cons]; omega)
    · next hop =>
      rw [hloop.stop (by simpa [NotNext] using hop)]
      rfl

namespace Call

/-- An operand does what its reader does, if the call for the sum in a group does. -/
theorem run_operand_eq {answer : Call → Answer (Expr × List Token)}
    (hsum : ∀ us, us.length < ts.length → (answer (sum us)).run = some (sum us).outcome) :
    (body answer (operand ts)).run = some (operand ts).outcome := by
  cases ts with
  | nil =>
    rw [outcome, outcome_operand_nil]
    rfl
  | cons t ts =>
    rw [body, outcome]
    split
    · next ht =>
      rw [outcome_operand_number ht]
      rfl
    · next ht =>
      rw [outcome_operand_name ht]
      rfl
    · next ht =>
      rw [outcome_operand_lparen ht]
      refine run_bind_eq (hsum ts (Nat.lt_succ_self _)) fun inner _ => ?_
      exact run_bind_eq rfl fun closing _ => rfl
    · next hnumber hname hgroup =>
      have hother : t.kind ∉ operandOpeners := by
        simp only [operandOpeners, List.mem_cons, List.not_mem_nil, or_false]
        exact fun h => h.elim hnumber fun h => h.elim hname hgroup
      rw [outcome_operand_other hother]
      rfl

/-- A call is answered as soon as calls may be nested as deep as it needs. -/
theorem run_within_eq (c : Call) {n : Nat} (h : c.depth ≤ n) :
    (c.within n).run = some c.outcome := by
  -- On the limit: a call on the same list goes down in the grammar, and one on a shorter list may
  -- begin at a sum again, since a token less makes room for three levels.
  induction n generalizing c with
  | zero => cases c <;> simp [depth] at h
  | succ n ih =>
    cases c with
    | operand ts =>
      refine run_operand_eq fun us hus => ih (sum us) ?_
      simp only [depth] at h ⊢
      omega
    | productTail left ts =>
      simp only [depth] at h
      refine run_tailBody_eq productTail_operatorLoop (expressions_derived _).1.takes
        (fun us hus => ih (operand us) ?_) fun e us hus => ih (productTail e us) ?_
      · simp only [depth]
        omega
      · simp only [depth]
        omega
    | product ts =>
      simp only [depth] at h
      rw [outcome, outcome_product]
      refine run_bind_eq (ih (operand ts) (Nat.le_of_succ_le_succ h)) fun first hfirst => ?_
      have hle := ((expressions_derived ts).1.takes hfirst).add_length_le
      refine ih (productTail first.1 first.2) ?_
      simp only [depth]
      omega
    | sumTail left ts =>
      simp only [depth] at h
      refine run_tailBody_eq sumTail_operatorLoop (expressions_derived _).2.2.1.takes
        (fun us hus => ih (product us) ?_) fun e us hus => ih (sumTail e us) ?_
      · simp only [depth]
        omega
      · simp only [depth]
        omega
    | sum ts =>
      simp only [depth] at h
      rw [outcome, outcome_sum]
      refine run_bind_eq (ih (product ts) (Nat.le_of_succ_le_succ h)) fun first hfirst => ?_
      have hle := ((expressions_derived ts).2.2.1.takes hfirst).add_length_le
      refine ih (sumTail first.1 first.2) ?_
      simp only [depth]
      omega

end Call

end

end Parser

end Arrowlet
