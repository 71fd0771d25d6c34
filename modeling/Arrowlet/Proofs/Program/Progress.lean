import Arrowlet.Proofs.Program.Recognition
import Arrowlet.Proofs.Repetition

/-!
# Reading a program goes on

`Parser.Takes least ts rest` says that `rest` is left of `ts` when at least `least` tokens have been
taken off it, none of which is the end of the input. A reader of expressions that succeeds takes one
token at least (`Derived.takes`), and the reader of statements two (`statement_takes`).

The tails of products and sums are loops. A round takes an operator and an operand after it, and
`Parser.Rounds` counts the rounds: a tail succeeds exactly if rounds lead to its result and no
operator comes next (`OperatorLoop.eq_ok_iff`). A round takes two tokens at least (`Round.takes`),
so `n` rounds take `2 * n` (`Rounds.takes`).

Reading statements is a loop as well. `parseWithin` reads at most a given number of statements, and
a list of `k` tokens is read within `k / 2` of them (`parseWithin_eq`), whether that succeeds or
fails.
-/

namespace Arrowlet

/-- A statement has a token before the semicolon that ends it. -/
theorem Grammar.Statement.two_le_length {ts : List Token} {s : Stmt} (h : Statement ts s) :
    2 ≤ ts.length := by
  cases h with
  | define | write | read => simp
  | eval he =>
    obtain ⟨t, us, rfl, -⟩ := he.head_mem_openers
    simp

namespace Parser

open Grammar

/-! ## Tokens that are taken -/

/-- What is left of `ts` when at least `least` tokens have been taken, none of them the end of the
input. -/
def Takes (least : Nat) (ts rest : List Token) : Prop :=
  ∃ taken, ts = taken ++ rest ∧ least ≤ taken.length ∧ ∀ t ∈ taken, t.kind ≠ .eof

section
variable {m n : Nat} {ts us rest : List Token} {t : Token}

theorem Takes.refl (ts : List Token) : Takes 0 ts ts :=
  ⟨[], rfl, Nat.le_refl 0, by simp⟩

theorem Takes.cons (ht : t.kind ≠ .eof) (h : Takes n ts rest) : Takes (n + 1) (t :: ts) rest := by
  obtain ⟨taken, rfl, hle, hkinds⟩ := h
  exact ⟨t :: taken, rfl, Nat.succ_le_succ hle, List.forall_mem_cons.mpr ⟨ht, hkinds⟩⟩

theorem Takes.trans (h : Takes m ts us) (h' : Takes n us rest) : Takes (m + n) ts rest := by
  obtain ⟨taken, rfl, hle, hkinds⟩ := h
  obtain ⟨taken', rfl, hle', hkinds'⟩ := h'
  refine ⟨taken ++ taken', (List.append_assoc ..).symm, ?_, ?_⟩
  · rw [List.length_append]
    exact Nat.add_le_add hle hle'
  · exact List.forall_mem_append.mpr ⟨hkinds, hkinds'⟩

theorem Takes.add_length_le (h : Takes n ts rest) : n + rest.length ≤ ts.length := by
  obtain ⟨taken, rfl, hle, -⟩ := h
  rw [List.length_append]
  exact Nat.add_le_add_right hle _

/-- A reader of expressions takes the tokens that derive its result. -/
theorem Derived.takes {level : Level} {r : Except Mismatch (Expr × List Token)} {e : Expr}
    (hd : Derived level ts r) (h : r = .ok (e, rest)) : Takes 1 ts rest := by
  obtain ⟨us, hts, he⟩ := hd e rest h
  obtain ⟨t, vs, rfl, -⟩ := he.head_mem_openers
  exact ⟨t :: vs, hts, Nat.succ_le_succ (Nat.zero_le _), he.kind_ne_eof⟩

/-- The reader of statements takes the tokens that derive its result. -/
theorem statement_takes {s : Stmt} (h : outcome (statement ts) = .ok (s, rest)) :
    Takes 2 ts rest := by
  obtain ⟨us, hts, hs⟩ := statement_derived h
  exact ⟨us, hts, hs.two_le_length, hs.kind_ne_eof⟩

end

/-! ## Loops over operators -/

/-- A round of a loop over operators: an operator is taken, and an operand is read after it. The
states are the expression so far and the tokens that are left. -/
inductive Round (isOp : Kind → Bool) (read : List Token → Except Mismatch (Expr × List Token)) :
    Expr × List Token → Expr × List Token → Prop
  | mk {op : Token} {ts rest : List Token} {left right : Expr} (hop : isOp op.kind)
      (hread : read ts = .ok (right, rest)) :
      Round isOp read (left, op :: ts) (.binary op.kind left right, rest)

/-- A number of rounds one after the other. -/
inductive Rounds (isOp : Kind → Bool) (read : List Token → Except Mismatch (Expr × List Token)) :
    Nat → Expr × List Token → Expr × List Token → Prop
  | none (s : Expr × List Token) : Rounds isOp read 0 s s
  | cons {n : Nat} {s s' s'' : Expr × List Token} (first : Round isOp read s s')
      (others : Rounds isOp read n s' s'') : Rounds isOp read (n + 1) s s''

/-- The reader `tail` is a loop that goes on as long as an operator comes next. -/
structure OperatorLoop (isOp : Kind → Bool)
    (read : List Token → Except Mismatch (Expr × List Token))
    (tail : Expr → List Token → Except Mismatch (Expr × List Token)) : Prop where
  stop : ∀ {left ts}, NotNext isOp ts → tail left ts = .ok (left, ts)
  operator : ∀ {left op ts}, isOp op.kind →
    tail left (op :: ts) = read ts >>= fun right => tail (.binary op.kind left right.1) right.2

theorem productTail_operatorLoop :
    OperatorLoop Kind.isMultiplicative (fun ts => outcome (operand ts))
      fun left ts => outcome (productTail left ts) :=
  ⟨outcome_productTail_stop, outcome_productTail_operator⟩

theorem sumTail_operatorLoop :
    OperatorLoop Kind.isAdditive (fun ts => outcome (product ts))
      fun left ts => outcome (sumTail left ts) :=
  ⟨outcome_sumTail_stop, outcome_sumTail_operator⟩

section
variable {isOp : Kind → Bool} {read : List Token → Except Mismatch (Expr × List Token)}
  {tail : Expr → List Token → Except Mismatch (Expr × List Token)} {n : Nat}
  {s s' : Expr × List Token} {left e : Expr} {ts rest : List Token}

/-- A round takes the operator and at least one token after it. -/
theorem Round.takes (heof : isOp .eof = false)
    (hread : ∀ {ts e rest}, read ts = .ok (e, rest) → Takes 1 ts rest) (h : Round isOp read s s') :
    Takes 2 s.2 s'.2 := by
  obtain ⟨hop, hright⟩ := h
  refine .cons (fun hkind => ?_) (hread hright)
  rw [hkind, heof] at hop
  cases hop

/-- Rounds take two tokens each. -/
theorem Rounds.takes (heof : isOp .eof = false)
    (hread : ∀ {ts e rest}, read ts = .ok (e, rest) → Takes 1 ts rest)
    (h : Rounds isOp read n s s') : Takes (2 * n) s.2 s'.2 := by
  induction h with
  | none s => exact .refl s.2
  | @cons n s s' s'' first _ ih =>
    rw [Nat.mul_succ, Nat.add_comm]
    exact (first.takes heof hread).trans ih

/-- Rounds after which no operator comes next lead to the result of the loop. -/
theorem OperatorLoop.eq_ok_of_rounds (hloop : OperatorLoop isOp read tail)
    (h : Rounds isOp read n s s') (hstop : NotNext isOp s'.2) : tail s.1 s.2 = .ok s' := by
  induction h with
  | none s => exact hloop.stop hstop
  | cons first _ ih =>
    obtain ⟨hop, hright⟩ := first
    rw [hloop.operator hop, hright]
    exact ih hstop

/-- A loop over operators succeeds exactly if rounds lead to its result and no operator comes
next. -/
theorem OperatorLoop.eq_ok_iff (hloop : OperatorLoop isOp read tail)
    (hread : ∀ {ts e rest}, read ts = .ok (e, rest) → Takes 1 ts rest) :
    tail left ts = .ok (e, rest) ↔
      (∃ n, Rounds isOp read n (left, ts) (e, rest)) ∧ NotNext isOp rest := by
  refine ⟨fun h => ?_, fun ⟨⟨n, hrounds⟩, hstop⟩ => hloop.eq_ok_of_rounds hrounds hstop⟩
  -- The list gets shorter in every round, because the operand takes a token.
  induction hlen : ts.length using Nat.strongRecOn generalizing left ts with
  | ind k ih =>
    subst hlen
    by_cases hnext : NotNext isOp ts
    · rw [hloop.stop hnext] at h
      cases h
      exact ⟨⟨0, .none _⟩, hnext⟩
    · cases ts with
      | nil => exact absurd (by simp [NotNext]) hnext
      | cons op ts =>
        have hop : isOp op.kind := by simpa [NotNext] using hnext
        rw [hloop.operator hop, bind_eq_ok_iff] at h
        obtain ⟨⟨right, us⟩, hright, htail⟩ := h
        have hle := (hread hright).add_length_le
        obtain ⟨⟨n, hrounds⟩, hstop⟩ := ih us.length (by rw [List.length_cons]; omega) htail rfl
        exact ⟨⟨n + 1, .cons ⟨hop, hright⟩ hrounds⟩, hstop⟩

end

/-! ## Statements -/

/-- Whether the statement that was read is followed by the end of the input. -/
def endsAfter (x : Stmt × List Token) : Bool := atEnd x.2

section
variable {n : Nat} {ts : List Token}

/-- Statements are read one by one up to the end of the input. -/
theorem statements_isRepetition :
    IsRepetition (fun ts => outcome (statement ts)) endsAfter statements where
  fail := by
    intro ts m hstep
    rw [statements_eq, hstep]
    rfl
  stop := by
    intro ts x hstep hlast
    rw [statements_eq, hstep]
    exact if_pos hlast
  next := by
    intro ts x hstep hlast
    rw [statements_eq, hstep]
    refine (if_neg hlast).trans ?_
    cases statements x.2 <;> rfl

/-- Each statement takes two tokens, so a limit of half their number is not passed. -/
theorem repeatWithin_statement_eq (h : ts.length / 2 ≤ n) :
    repeatWithin (fun ts => outcome (statement ts)) endsAfter n ts = some (statements ts) := by
  refine statements_isRepetition.repeatWithin_eq (fun ts => ts.length / 2) ?_ ?_ h
  · intro ts x hstep
    have hle := (statement_takes hstep).add_length_le
    omega
  · intro ts x hstep _
    have hle := (statement_takes hstep).add_length_le
    omega

end

end Parser

/-- The program of a list of tokens if it has at most `n` statements up to the end of the input or
the first token that does not fit, and nothing if there are more. -/
def parseWithin (n : Nat) (ts : List Token) : Option (Except ParseError Program) :=
  match repeatWithin (fun ts => Parser.outcome (Parser.statement ts)) Parser.endsAfter n ts with
  | none => none
  | some (.ok program) => some (.ok program)
  | some (.error m) => some (.error ⟨m.expected, m.rest.headD (Parser.endToken ts)⟩)

/-- A list is read within half as many statements as it has tokens. -/
theorem parseWithin_eq {n : Nat} {ts : List Token} (h : ts.length / 2 ≤ n) :
    parseWithin n ts = some (parse ts) := by
  rw [parseWithin, Parser.repeatWithin_statement_eq h, parse]
  cases Parser.statements ts <;> rfl

/-- A program has at most half as many statements as it was read from tokens. -/
theorem length_le_of_parse {ts : List Token} {p : Program} (h : parse ts = .ok p) :
    p.length ≤ ts.length / 2 := by
  have hwithin := parseWithin_eq (Nat.le_refl (ts.length / 2))
  rw [h, parseWithin] at hwithin
  split at hwithin
  · cases hwithin
  · next hprogram =>
    cases hwithin
    exact length_le_of_repeatWithin hprogram
  · cases hwithin

end Arrowlet
