import Arrowlet.Proofs.Program.Recognition

/-!
# What a reader expects where it fails

`Parser.FailsWithin P ts r`: if reading `ts` fails, then the tokens before the mismatch followed by
one of an expected kind satisfy `P`, some kind is expected, and the next token is of none of them.
What a reader expects is of use if `P` says that the tokens can be continued, so the readers are
shown to fail within `Grammar.Begins`: those of expressions along the descent (`sum_failsWithin`),
and that of statements from them (`statement_failsWithin`). What stands before a reader in a
statement is part of its `P`, and `FailsWithin.bind` hands it on.
-/

namespace Arrowlet

/-! ## Beginnings of derivations -/

namespace Grammar

/-- The tokens derive an expression at a level. -/
def IsExpression (level : Level) (ts : List Token) : Prop := ∃ e, Expression level ts e

/-- The tokens derive a statement. -/
def IsStatement (ts : List Token) : Prop := ∃ s, Statement ts s

/-- The tokens can be continued to a list of a given sort. -/
def Begins (sort : List Token → Prop) (ts : List Token) : Prop := ∃ us, sort (ts ++ us)

/-- Some token of a kind, for continuations. -/
def sample (kind : Kind) : Token := ⟨kind, [], .start⟩

section
variable {ts us : List Token} {t keyword : Token} {sort sort' : List Token → Prop}

theorem Begins.of_append (h : Begins sort (ts ++ us)) : Begins sort ts := by
  obtain ⟨vs, hvs⟩ := h
  exact ⟨us ++ vs, by rwa [List.append_assoc] at hvs⟩

/-- A whole list of a sort begins that sort. -/
theorem Begins.whole (h : sort ts) : Begins sort ts := ⟨[], by rwa [List.append_nil]⟩

/-- What begins one sort of list begins another behind `ts`, if every list of the first sort does.
-/
theorem Begins.behind (ts : List Token) (hsort : ∀ vs, sort vs → Begins sort' (ts ++ vs))
    (h : Begins sort us) : Begins sort' (ts ++ us) := by
  obtain ⟨vs, hvs⟩ := h
  have := hsort _ hvs
  rw [← List.append_assoc] at this
  exact this.of_append

/-- Nothing has to be there to begin a sum. -/
theorem begins_sum_nil : Begins (IsExpression .sum) [] :=
  ⟨[sample .number], _, .ofProduct (.ofOperand (.number rfl))⟩

/-- A sum that is begun behind an opening parenthesis begins an operand. -/
theorem begins_group (ht : t.kind = .lparen) (h : Begins (IsExpression .sum) us) :
    Begins (IsExpression .operand) (t :: us) :=
  h.behind [t] fun _ ⟨e, he⟩ => ⟨[sample .rparen], .group e, .group ht he rfl⟩

/-- Everything that opens an operand begins one. -/
theorem begins_operand (ht : t.kind ∈ Parser.operandOpeners) :
    Begins (IsExpression .operand) [t] := by
  simp only [Parser.operandOpeners, List.mem_cons, List.not_mem_nil, or_false] at ht
  rcases ht with ht | ht | ht
  · exact .whole ⟨_, .number ht⟩
  · exact .whole ⟨_, .name ht⟩
  · exact begins_group ht begins_sum_nil

/-- A sum that is begun behind the arrow of a declaration begins a statement. -/
theorem begins_define {name arrow : Token} (hk : keyword.kind = .define)
    (hn : name.kind = .identifier) (ha : arrow.kind = .arrow) (h : Begins (IsExpression .sum) us) :
    Begins IsStatement (keyword :: name :: arrow :: us) :=
  h.behind [keyword, name, arrow] fun _ ⟨_, he⟩ =>
    ⟨[sample .semicolon], _, .define hk hn ha he rfl⟩

/-- A sum that is begun behind the comma of an output statement begins a statement. -/
theorem begins_write {opening format comma : Token} (hk : keyword.kind = .write)
    (ho : opening.kind = .lparen) (hf : format.kind = .string) (hm : comma.kind = .comma)
    (h : Begins (IsExpression .sum) us) :
    Begins IsStatement (keyword :: opening :: format :: comma :: us) :=
  h.behind [keyword, opening, format, comma] fun _ ⟨_, he⟩ =>
    ⟨[sample .rparen, sample .semicolon], _, .write hk ho hf hm he rfl rfl⟩

/-- A sum that is begun begins a statement. -/
theorem begins_eval (h : Begins (IsExpression .sum) us) : Begins IsStatement us :=
  h.behind [] fun _ ⟨_, he⟩ => ⟨[sample .semicolon], _, .eval he rfl⟩

end

end Grammar

open Grammar

namespace Parser

/-! ## What is expected -/

/-- The kind of the next token; at the end of a list, the end of the input. -/
def nextKind : List Token → Kind
  | [] => .eof
  | t :: _ => t.kind

section
variable {α β : Type} {ts us : List Token} {t : Token}

/-- If reading `ts` fails, then some kind was expected, the next token is of none of the expected
kinds, and the tokens before it followed by one of an expected kind satisfy `P`. -/
def FailsWithin (P : List Token → Prop) (ts : List Token) (r : Except Mismatch α) : Prop :=
  ∀ m, r = .error m → ∃ us, ts = us ++ m.rest ∧ m.expected ≠ [] ∧ nextKind m.rest ∉ m.expected ∧
    ∀ t : Token, t.kind ∈ m.expected → P (us ++ [t])

section
variable {P Q : List Token → Prop} {r : Except Mismatch α}

theorem FailsWithin.ok (a : α) : FailsWithin P ts (.ok a) := fun _ h => nomatch h

theorem FailsWithin.mono (h : FailsWithin P ts r) (hPQ : ∀ us, P us → Q us) :
    FailsWithin Q ts r := by
  intro m hm
  obtain ⟨us, hts, hne, hnext, hP⟩ := h m hm
  exact ⟨us, hts, hne, hnext, fun t ht => hPQ _ (hP t ht)⟩

/-- A token that was taken before belongs to what stands before the mismatch. -/
theorem FailsWithin.cons (h : FailsWithin (fun us => P (t :: us)) ts r) :
    FailsWithin P (t :: ts) r := by
  intro m hm
  obtain ⟨us, rfl, hne, hnext, hP⟩ := h m hm
  exact ⟨t :: us, rfl, hne, hnext, hP⟩

/-- A reader that refuses the next token fails before it. -/
theorem FailsWithin.here {expected : List Kind} (hne : expected ≠ [])
    (hnext : nextKind ts ∉ expected) (hP : ∀ t : Token, t.kind ∈ expected → P [t]) :
    FailsWithin P ts (.error ⟨expected, ts⟩ : Except Mismatch α) := by
  intro m hm
  cases hm
  exact ⟨[], rfl, hne, hnext, hP⟩

/-- What the first of two readers has taken stands before the mismatch of the second. -/
theorem FailsWithin.bind {r : Except Mismatch (α × List Token)}
    {f : α × List Token → Except Mismatch β} (hr : FailsWithin P ts r)
    (hf : ∀ a rest, r = .ok (a, rest) →
      ∃ us, ts = us ++ rest ∧ FailsWithin (fun vs => P (us ++ vs)) rest (f (a, rest))) :
    FailsWithin P ts (r >>= f) := by
  cases r with
  | error mismatch => exact fun m hm => hr m (by cases hm; rfl)
  | ok reading =>
    intro m hm
    obtain ⟨us, rfl, h⟩ := hf reading.1 reading.2 rfl
    obtain ⟨vs, hrest, hne, hnext, hP⟩ := h m hm
    refine ⟨us ++ vs, by rw [List.append_assoc, ← hrest], hne, hnext, fun t ht => ?_⟩
    rw [List.append_assoc]
    exact hP t ht

/-- A token that must come next is followed by what is read after it. -/
theorem FailsWithin.expect {kind : Kind} {f : Token × List Token → Except Mismatch β}
    (hkind : kind ≠ .eof) (hP : ∀ t : Token, t.kind = kind → P [t])
    (hf : ∀ t rest, t.kind = kind → FailsWithin (fun us => P (t :: us)) rest (f (t, rest))) :
    FailsWithin P ts (outcome (expect kind ts) >>= f) := by
  refine .bind ?_ fun t rest ht => ?_
  · have hmem : ∀ t : Token, t.kind ∈ [kind] → P [t] := fun t ht => hP t (List.mem_singleton.mp ht)
    cases ts with
    | nil => exact .here (by simp) (by simpa [nextKind] using hkind.symm) hmem
    | cons t us =>
      rw [outcome_expect_cons]
      split
      · exact .ok _
      · next ht => exact .here (by simp) (by simpa [nextKind] using ht) hmem
  · obtain ⟨rfl, hk⟩ := outcome_expect_eq_ok.mp ht
    exact ⟨[t], rfl, hf t rest hk⟩

end

/-- An operand fails within an operand once shorter sums fail within a sum. -/
theorem operand_failsWithin
    (ih : ∀ us, us.length < ts.length →
      FailsWithin (Begins (IsExpression .sum)) us (outcome (sum us))) :
    FailsWithin (Begins (IsExpression .operand)) ts (outcome (operand ts)) := by
  cases ts with
  | nil =>
    rw [outcome_operand_nil]
    exact .here (by decide) (by decide) fun _ => begins_operand
  | cons t us =>
    by_cases ht : t.kind ∈ operandOpeners
    · simp only [operandOpeners, List.mem_cons, List.not_mem_nil, or_false] at ht
      rcases ht with ht | ht | ht
      · rw [outcome_operand_number ht]
        exact .ok _
      · rw [outcome_operand_name ht]
        exact .ok _
      · rw [outcome_operand_lparen ht]
        refine .cons (.bind ((ih us (by simp)).mono fun _ => begins_group ht) ?_)
        intro inner rest hinner
        obtain ⟨vs, hvs, he⟩ := sum_derived us inner rest hinner
        refine ⟨vs, hvs, .expect (by decide) (fun closing hc => ?_) fun _ _ _ => .ok _⟩
        exact .whole ⟨_, .group ht he hc⟩
    · rw [outcome_operand_other ht]
      exact .here (by decide) ht fun _ => begins_operand

/-- The tail of a chain fails within the chain, if its operands fail within an operand and the rest
of the tail fails within the longer chain. -/
theorem FailsWithin.operator {level lower : Level} {op : Token} {ws : List Token} {left : Expr}
    {reader : Except Mismatch (Expr × List Token)}
    (tail : Expr → List Token → Except Mismatch (Expr × List Token))
    (hreader : FailsWithin (Begins (IsExpression lower)) us reader)
    (hderived : Derived lower us reader)
    (hchain : ∀ {vs right}, Expression lower vs right →
      Expression level (ws ++ op :: vs) (.binary op.kind left right))
    (htail : ∀ xs right rest, reader = .ok (right, rest) →
      Expression level xs (.binary op.kind left right) →
      FailsWithin (fun vs => Begins (IsExpression level) (xs ++ vs)) rest
        (tail (.binary op.kind left right) rest)) :
    FailsWithin (fun vs => Begins (IsExpression level) (ws ++ vs)) (op :: us)
      (reader >>= fun right => tail (.binary op.kind left right.1) right.2) := by
  refine .cons (.bind (hreader.mono fun vs hvs => ?_) fun right rest hright => ?_)
  · have hbehind : ∀ xs, IsExpression lower xs →
        Begins (IsExpression level) (ws ++ [op] ++ xs) := by
      rintro xs ⟨right, hr⟩
      exact .whole ⟨_, by simpa using hchain hr⟩
    simpa using hvs.behind (ws ++ [op]) hbehind
  · obtain ⟨vs, rfl, hvs⟩ := hderived right rest hright
    refine ⟨vs, rfl, ?_⟩
    simpa using htail _ right rest hright (hchain hvs)

/-- A chain fails within itself, if its first member and its tail do. -/
theorem FailsWithin.chain {level lower : Level} {reader : Except Mismatch (Expr × List Token)}
    (tail : Expr → List Token → Except Mismatch (Expr × List Token))
    (hreader : FailsWithin (Begins (IsExpression lower)) ts reader)
    (hderived : Derived lower ts reader)
    (hsingle : ∀ {vs first}, Expression lower vs first → Expression level vs first)
    (htail : ∀ xs first rest, reader = .ok (first, rest) → Expression level xs first →
      FailsWithin (fun vs => Begins (IsExpression level) (xs ++ vs)) rest (tail first rest)) :
    FailsWithin (Begins (IsExpression level)) ts
      (reader >>= fun first => tail first.1 first.2) := by
  refine .bind (hreader.mono fun vs hvs => ?_) fun first rest hfirst => ?_
  · exact hvs.behind [] fun xs ⟨first, h⟩ => .whole ⟨first, hsingle h⟩
  · obtain ⟨vs, hts, hvs⟩ := hderived first rest hfirst
    exact ⟨vs, hts, htail vs first rest hfirst (hsingle hvs)⟩

/-- The tail of a product behind any derivation of its left operand fails within a product, once
shorter operands and tails do. -/
theorem productTail_failsWithin
    (hoperand : ∀ us, us.length < ts.length →
      FailsWithin (Begins (IsExpression .operand)) us (outcome (operand us)))
    (ih : ∀ us, us.length < ts.length → ∀ ws left, Expression .product ws left →
      FailsWithin (fun vs => Begins (IsExpression .product) (ws ++ vs)) us
        (outcome (productTail left us)))
    (ws : List Token) (left : Expr) (hleft : Expression .product ws left) :
    FailsWithin (fun vs => Begins (IsExpression .product) (ws ++ vs)) ts
      (outcome (productTail left ts)) := by
  cases ts with
  | nil =>
    rw [outcome_productTail_nil]
    exact .ok _
  | cons t us =>
    by_cases ht : t.kind.isMultiplicative
    · rw [outcome_productTail_operator ht]
      refine .operator (fun e vs => outcome (productTail e vs)) (hoperand us (by simp))
        (expressions_derived us).1 (fun hr => .multiply hleft ht hr)
        fun xs right rest hright hxs => ih rest ?_ xs _ hxs
      exact Nat.lt_succ_of_lt (length_lt_of_outcome hright)
    · rw [outcome_productTail_other ht]
      exact .ok _

/-- The tail of a sum behind any derivation of its left operand fails within a sum, once shorter
products and tails do. -/
theorem sumTail_failsWithin
    (hproduct : ∀ us, us.length < ts.length →
      FailsWithin (Begins (IsExpression .product)) us (outcome (product us)))
    (ih : ∀ us, us.length < ts.length → ∀ ws left, Expression .sum ws left →
      FailsWithin (fun vs => Begins (IsExpression .sum) (ws ++ vs)) us (outcome (sumTail left us)))
    (ws : List Token) (left : Expr) (hleft : Expression .sum ws left) :
    FailsWithin (fun vs => Begins (IsExpression .sum) (ws ++ vs)) ts
      (outcome (sumTail left ts)) := by
  cases ts with
  | nil =>
    rw [outcome_sumTail_nil]
    exact .ok _
  | cons t us =>
    by_cases ht : t.kind.isAdditive
    · rw [outcome_sumTail_operator ht]
      refine .operator (fun e vs => outcome (sumTail e vs)) (hproduct us (by simp))
        (expressions_derived us).2.2.1 (fun hr => .add hleft ht hr)
        fun xs right rest hright hxs => ih rest ?_ xs _ hxs
      exact Nat.lt_succ_of_lt (length_lt_of_outcome hright)
    · rw [outcome_sumTail_other ht]
      exact .ok _

/-- Where a sum cannot be read, what stands before begins a sum with every expected token. -/
theorem sum_failsWithin (ts : List Token) :
    FailsWithin (Begins (IsExpression .sum)) ts (outcome (sum ts)) := by
  refine (descent_induction (fun ts => operand_failsWithin) (fun ts => productTail_failsWithin)
    (fun ts hoperand htail => ?_) (fun ts => sumTail_failsWithin)
    (fun ts hproduct htail => ?_) ts).2.2.2.2
  · rw [outcome_product]
    exact hoperand.chain (fun e us => outcome (productTail e us)) (expressions_derived ts).1
      .ofOperand fun xs first rest h hxs => htail rest (length_lt_of_outcome h) xs first hxs
  · rw [outcome_sum]
    exact hproduct.chain (fun e us => outcome (sumTail e us)) (expressions_derived ts).2.2.1
      .ofProduct fun xs first rest h hxs => htail rest (length_lt_of_outcome h) xs first hxs

/-- A sum that must come next is followed by what is read after it. -/
theorem FailsWithin.sum {P : List Token → Prop} {f : Expr × List Token → Except Mismatch β}
    (hP : ∀ us, Begins (IsExpression .sum) us → P us)
    (hf : ∀ e us rest, Expression .sum us e →
      FailsWithin (fun vs => P (us ++ vs)) rest (f (e, rest))) :
    FailsWithin P ts (outcome (sum ts) >>= f) := by
  refine .bind ((sum_failsWithin ts).mono hP) fun e rest he => ?_
  obtain ⟨us, hts, hus⟩ := sum_derived ts e rest he
  exact ⟨us, hts, hf e us rest hus⟩

/-- A declaration that cannot be read begins a statement with every expected token. -/
theorem definition_failsWithin (ht : t.kind = .define) :
    FailsWithin (fun us => Begins IsStatement (t :: us)) ts (outcome (definition ts)) := by
  have hname : ∀ {name}, name.kind = .identifier → Begins IsStatement [t, name] := fun hn =>
    (begins_define ht hn (rfl : (sample .arrow).kind = _) begins_sum_nil).of_append
  rw [outcome_definition]
  refine .expect (by decide) (fun name hn => hname hn) fun name _ hn =>
    .expect (by decide) (fun arrow ha => begins_define ht hn ha begins_sum_nil) fun arrow _ ha =>
    .sum (fun us hus => begins_define ht hn ha hus) fun e us _ he =>
    .expect (by decide) (fun stop hs => ?_) fun _ _ _ => .ok _
  exact .whole ⟨_, .define ht hn ha he hs⟩

/-- An output statement that cannot be read begins a statement with every expected token. -/
theorem output_failsWithin (ht : t.kind = .write) :
    FailsWithin (fun us => Begins IsStatement (t :: us)) ts (outcome (output ts)) := by
  have hformat : ∀ {opening format}, opening.kind = .lparen → format.kind = .string →
      Begins IsStatement [t, opening, format] := fun ho hf =>
    (begins_write ht ho hf (rfl : (sample .comma).kind = _) begins_sum_nil).of_append
  have hopening : ∀ {opening}, opening.kind = .lparen → Begins IsStatement [t, opening] :=
    fun ho => (hformat ho (rfl : (sample .string).kind = _)).of_append
  rw [outcome_output]
  refine .expect (by decide) (fun opening ho => hopening ho) fun opening _ ho =>
    .expect (by decide) (fun format hf => hformat ho hf) fun format _ hf =>
    .expect (by decide) (fun comma hm => begins_write ht ho hf hm begins_sum_nil) fun comma _ hm =>
    .sum (fun us hus => begins_write ht ho hf hm hus) fun e us _ he =>
    .expect (by decide) (fun closing hc => ?_) fun closing _ hc =>
    .expect (by decide) (fun stop hs => ?_) fun _ _ _ => .ok _
  · exact ⟨[sample .semicolon], _, by simpa using Statement.write ht ho hf hm he hc rfl⟩
  · exact .whole ⟨_, .write ht ho hf hm he hc hs⟩

/-- An input statement that cannot be read begins a statement with every expected token. -/
theorem input_failsWithin (ht : t.kind = .read) :
    FailsWithin (fun us => Begins IsStatement (t :: us)) ts (outcome (input ts)) := by
  have hopening : ∀ {opening}, opening.kind = .scanAddr → Begins IsStatement [t, opening] :=
    fun ho => ⟨[sample .identifier, sample .rparen, sample .semicolon], _, .read ht ho rfl rfl rfl⟩
  have hname : ∀ {opening name}, opening.kind = .scanAddr → name.kind = .identifier →
      Begins IsStatement [t, opening, name] :=
    fun ho hn => ⟨[sample .rparen, sample .semicolon], _, .read ht ho hn rfl rfl⟩
  rw [outcome_input]
  refine .expect (by decide) (fun opening ho => hopening ho) fun opening _ ho =>
    .expect (by decide) (fun name hn => hname ho hn) fun name _ hn =>
    .expect (by decide) (fun closing hc => ?_) fun closing _ hc =>
    .expect (by decide) (fun stop hs => ?_) fun _ _ _ => .ok _
  · exact ⟨[sample .semicolon], _, .read ht ho hn hc rfl⟩
  · exact .whole ⟨_, .read ht ho hn hc hs⟩

/-- A sum with a semicolon that cannot be read begins a statement with every expected token. -/
theorem evaluation_failsWithin : FailsWithin (Begins IsStatement) ts (outcome (evaluation ts)) := by
  rw [outcome_evaluation]
  refine .sum (fun us hus => begins_eval hus) fun e us _ he =>
    .expect (by decide) (fun stop hs => ?_) fun _ _ _ => .ok _
  exact .whole ⟨_, .eval he hs⟩

/-- Everything that opens a statement begins one. -/
theorem begins_statement (ht : t.kind ∈ statementOpeners) : Begins IsStatement [t] := by
  simp only [statementOpeners, List.mem_cons, List.not_mem_nil, or_false] at ht
  rcases ht with ht | ht | ht | ht
  · exact (begins_define ht (rfl : (sample .identifier).kind = _)
      (rfl : (sample .arrow).kind = _) begins_sum_nil).of_append
  · exact (begins_write ht (rfl : (sample .lparen).kind = _) (rfl : (sample .string).kind = _)
      (rfl : (sample .comma).kind = _) begins_sum_nil).of_append
  · exact ⟨[sample .scanAddr, sample .identifier, sample .rparen, sample .semicolon], _,
      .read ht rfl rfl rfl rfl⟩
  · have ht' : t.kind ∈ operandOpeners := by simpa [operandOpeners] using ht
    refine begins_eval ((begins_operand ht').behind [] fun us hus => ?_)
    obtain ⟨e, he⟩ := hus
    exact .whole ⟨e, .ofProduct (.ofOperand he)⟩

/-- Where a statement cannot be read, what stands before begins a statement with every expected
token. -/
theorem statement_failsWithin (ts : List Token) :
    FailsWithin (Begins IsStatement) ts (outcome (statement ts)) := by
  cases ts with
  | nil =>
    rw [outcome_statement_nil]
    exact .here (by decide) (by decide) fun _ => begins_statement
  | cons t us =>
    by_cases ht : t.kind ∈ statementOpeners
    · have ht' := ht
      simp only [statementOpeners, List.mem_cons, List.not_mem_nil, or_false] at ht'
      rcases ht' with hk | hk | hk | hk
      · rw [outcome_statement_define hk]
        exact .cons (definition_failsWithin hk)
      · rw [outcome_statement_write hk]
        exact .cons (output_failsWithin hk)
      · rw [outcome_statement_read hk]
        exact .cons (input_failsWithin hk)
      · rw [outcome_statement_opener (by simpa [operandOpeners] using hk)]
        exact evaluation_failsWithin
    · rw [outcome_statement_other ht]
      exact .here (by decide) ht fun _ => begins_statement

end

end Parser

end Arrowlet
