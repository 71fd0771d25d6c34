import Arrowlet.Proofs.Program.Nesting
import Arrowlet.Proofs.Token.Progress
import Mathlib.Control.Monad.Basic

/-!
# Reading a text and its tokens makes progress

What the readers take off their input is told here by places. A text or a list of tokens that has
been read up to the place `start` is what remains of it from there on, `src.drop start` or
`tokens.drop start`, and a reader that succeeds leaves what remains from a later place on.

`Lexer.Progress src` collects this for the steps of the lexer, and `Parser.Progress tokens` for the
readers of the parser and for the rounds of its loops, with the limits within which the loops and
the descent end. `reading_makes_progress` says that they hold of every text and of every list of
tokens, wherever this has an end of the input or if it has none.
-/

namespace Arrowlet

open Bytes Arrowlet.Parser

/-- What is taken from a place on leads to a later place. -/
theorem drop_add_length {α : Type} {xs taken rest : List α} {start : Nat}
    (h : xs.drop start = taken ++ rest) (hne : taken ≠ []) :
    rest = xs.drop (start + taken.length) ∧ start < start + taken.length ∧
      start + taken.length ≤ xs.length := by
  have hlength := congrArg List.length h
  have hpos := List.length_pos_iff.mpr hne
  rw [List.length_drop, List.length_append] at hlength
  refine ⟨?_, by omega, by omega⟩
  rw [← List.drop_drop, h, List.drop_left]

/-! ## Steps of the lexer -/

namespace Lexer

/-- Reading the token `t` leads from the place `start` to the place `stop` of a text: the end of the
input leads to the end of the text, and any other token to a later place of it. -/
def StepsTo (length start : Nat) (t : Token) (stop : Nat) : Prop :=
  t.kind = .eof ∧ stop = length ∨ t.kind ≠ .eof ∧ start < stop ∧ stop ≤ length

/-- The lexer makes progress in a text. -/
structure Progress (src : Bytes) : Prop where
  /-- A step from any place of the text leads to a later one or to the end. -/
  bytes : ∀ start pos t l, (⟨src.drop start, pos⟩ : Lexer).next = .ok (t, l) →
    ∃ stop, l.rest = src.drop stop ∧ StepsTo src.length start t stop
  /-- The same holds if places are counted in characters. -/
  chars : ∀ cs, src = ofChars cs → ∀ start pos t l,
    (⟨ofChars (cs.drop start), pos⟩ : Lexer).next = .ok (t, l) →
    ∃ stop, l.rest = ofChars (cs.drop stop) ∧ StepsTo cs.length start t stop
  /-- The text is read within one token more than it has characters. -/
  ends : ∀ n, src.charCount < n → lexWithin n src = some (lex src)
  /-- It has at most one token more than characters. -/
  count : ∀ ts, lex src = .ok ts → ts.length ≤ src.charCount + 1
  /-- It has at most as many characters as bytes. -/
  charCount_le : src.charCount ≤ src.length

/-- A step in a text leads to a later place or to its end. -/
theorem exists_stepsTo {src : Bytes} {start : Nat} {pos : Position} {t : Token} {l : Lexer}
    (h : (⟨src.drop start, pos⟩ : Lexer).next = .ok (t, l)) :
    ∃ stop, l.rest = src.drop stop ∧ StepsTo src.length start t stop := by
  rcases next_takes h with ⟨ht, hrest⟩ | ⟨ht, taken, hsplit, hfirst, -⟩
  · exact ⟨src.length, by rw [hrest, List.drop_length], .inl ⟨ht, rfl⟩⟩
  · have hne : taken ≠ [] := by
      rintro rfl
      exact absurd hfirst (Nat.lt_irrefl 0)
    obtain ⟨hrest, hplace⟩ := drop_add_length hsplit hne
    exact ⟨_, hrest, .inr ⟨ht, hplace⟩⟩

/-- A step in a text of characters leads to a place between two of them. -/
theorem exists_stepsTo_chars {cs : List Char} {start : Nat} {pos : Position} {t : Token}
    {l : Lexer} (h : (⟨ofChars (cs.drop start), pos⟩ : Lexer).next = .ok (t, l)) :
    ∃ stop, l.rest = ofChars (cs.drop stop) ∧ StepsTo cs.length start t stop := by
  rcases next_takes h with ⟨ht, hrest⟩ | ⟨ht, -⟩
  · refine ⟨cs.length, ?_, .inl ⟨ht, rfl⟩⟩
    rw [hrest, List.drop_length]
    rfl
  · obtain ⟨taken, rest, hne, hsplit, hrest⟩ := next_takes_chars h ht
    obtain ⟨rfl, hplace⟩ := drop_add_length hsplit hne
    exact ⟨_, hrest, .inr ⟨ht, hplace⟩⟩

end Lexer

/-! ## Readers of the parser -/

namespace Parser

/-- What remains of `tokens` from a place on that is at least `least` places after `start`. None of
the tokens between them is the end of the input. -/
def Advances (tokens : List Token) (least start : Nat) (rest : List Token) : Prop :=
  ∃ stop, rest = tokens.drop stop ∧ start + least ≤ stop ∧ stop ≤ tokens.length ∧
    ∀ t ∈ tokens.extract start stop, t.kind ≠ .eof

/-- Wherever the reader succeeds, it advances by at least `least` tokens. -/
def AlwaysAdvances {α : Type} (tokens : List Token) (least : Nat)
    (read : (ts : List Token) → Except Mismatch (Reading α ts.length)) : Prop :=
  ∀ start r, read (tokens.drop start) = .ok r → Advances tokens least start r.rest

/-- A loop over operators makes progress. -/
structure LoopProgress (tokens : List Token) (isOp : Kind → Bool)
    (read : List Token → Except Mismatch (Expr × List Token))
    (tail : Expr → List Token → Except Mismatch (Expr × List Token)) : Prop where
  /-- Each round takes two tokens at least. -/
  round : ∀ start left s, Round isOp read (left, tokens.drop start) s →
    Advances tokens 2 start s.2
  /-- The loop consists of rounds, at most half as many as it takes tokens, and stops where no
  operator comes next. -/
  result : ∀ start left e rest, tail left (tokens.drop start) = .ok (e, rest) ↔
    (∃ n, 2 * n + rest.length ≤ (tokens.drop start).length ∧
      Rounds isOp read n (left, tokens.drop start) (e, rest)) ∧ NotNext isOp rest

/-- The parser makes progress in a list of tokens. -/
structure Progress (tokens : List Token) : Prop where
  operand : AlwaysAdvances tokens 1 operand
  product : AlwaysAdvances tokens 1 product
  sum : AlwaysAdvances tokens 1 sum
  statement : AlwaysAdvances tokens 2 statement
  productLoop : LoopProgress tokens Kind.isMultiplicative (fun ts => outcome (Parser.operand ts))
    fun left ts => outcome (productTail left ts)
  sumLoop : LoopProgress tokens Kind.isAdditive (fun ts => outcome (Parser.product ts))
    fun left ts => outcome (sumTail left ts)
  /-- The calls of a reader of expressions nest at most `3 * tokens.length + 3` deep. -/
  descent : ∀ c : Call, c.tokens = tokens → ∀ n, 3 * tokens.length + 3 ≤ n →
    (c.within n).run = some c.outcome
  /-- The list is read within half as many statements as it has tokens. -/
  ends : ∀ n, tokens.length / 2 ≤ n → parseWithin n tokens = some (parse tokens)
  /-- A program has at most half as many statements. -/
  count : ∀ p, parse tokens = .ok p → p.length ≤ tokens.length / 2

section
variable {tokens rest : List Token} {least start : Nat}

/-- Tokens that are taken lead to a later place. -/
theorem Takes.advances (h : Takes least (tokens.drop start) rest) (hpos : 0 < least) :
    Advances tokens least start rest := by
  obtain ⟨taken, hsplit, hle, hkinds⟩ := h
  have hne : taken ≠ [] := List.length_pos_iff.mp (Nat.lt_of_lt_of_le hpos hle)
  obtain ⟨hrest, -, hstop⟩ := drop_add_length hsplit hne
  refine ⟨start + taken.length, hrest, Nat.add_le_add_left hle start, hstop, ?_⟩
  rw [List.extract_eq_take_drop, Nat.add_sub_cancel_left, hsplit, List.take_left]
  exact hkinds

/-- A reader that takes tokens wherever it succeeds advances there. -/
theorem alwaysAdvances_of_takes {α : Type}
    {read : (ts : List Token) → Except Mismatch (Reading α ts.length)}
    (h : ∀ {ts a rest}, outcome (read ts) = .ok (a, rest) → Takes least ts rest)
    (hpos : 0 < least) : AlwaysAdvances tokens least read := by
  intro start r hr
  have houtcome : outcome (read (tokens.drop start)) = .ok (r.value, r.rest) := by
    rw [hr, outcome_ok]
  exact (h houtcome).advances hpos

/-- A loop over operators makes progress if its operands take a token. -/
theorem OperatorLoop.loopProgress {isOp : Kind → Bool}
    {read : List Token → Except Mismatch (Expr × List Token)}
    {tail : Expr → List Token → Except Mismatch (Expr × List Token)}
    (hloop : OperatorLoop isOp read tail) (heof : isOp .eof = false)
    (hread : ∀ {ts e rest}, read ts = .ok (e, rest) → Takes 1 ts rest) :
    LoopProgress tokens isOp read tail where
  round := fun start left s h => (h.takes heof hread).advances (Nat.succ_pos 1)
  result := by
    intro start left e rest
    rw [hloop.eq_ok_iff hread]
    constructor
    · rintro ⟨⟨n, hrounds⟩, hstop⟩
      exact ⟨⟨n, (hrounds.takes heof hread).add_length_le, hrounds⟩, hstop⟩
    · rintro ⟨⟨n, -, hrounds⟩, hstop⟩
      exact ⟨⟨n, hrounds⟩, hstop⟩

end

end Parser

/-- **Reading makes progress, and so it ends.** A step of the lexer leads to a later place of the
text or to its end. A reader of expressions that succeeds takes one token at least, the reader of
statements and a round of a loop over operators two, and none of these is the end of the input. So
every text is read within one token more than it has characters, the calls of the readers nest to a
bounded depth, and every list of tokens is read within half as many statements. -/
theorem reading_makes_progress (src : Bytes) (tokens : List Token) :
    Lexer.Progress src ∧ Parser.Progress tokens where
  left :=
    { bytes := fun _ _ _ _ h => Lexer.exists_stepsTo h
      chars := fun _ _ _ _ _ _ h => Lexer.exists_stepsTo_chars h
      ends := fun _ h => lexWithin_eq h
      count := fun _ h => length_le_of_lex h
      charCount_le := charCount_le_length src }
  right :=
    { operand := alwaysAdvances_of_takes (expressions_derived _).1.takes (Nat.succ_pos 0)
      product := alwaysAdvances_of_takes (expressions_derived _).2.2.1.takes (Nat.succ_pos 0)
      sum := alwaysAdvances_of_takes (sum_derived _).takes (Nat.succ_pos 0)
      statement := alwaysAdvances_of_takes statement_takes (Nat.succ_pos 1)
      productLoop := productTail_operatorLoop.loopProgress rfl (expressions_derived _).1.takes
      sumLoop := sumTail_operatorLoop.loopProgress rfl (expressions_derived _).2.2.1.takes
      descent := by
        rintro c rfl n hn
        exact c.run_within_eq (Nat.le_trans c.depth_le hn)
      ends := fun _ h => parseWithin_eq h
      count := fun _ h => length_le_of_parse h }

/-- Both bounds are reached: a text of one character has two tokens, and two tokens without an end
of the input are a statement. -/
theorem reading_makes_progress_tight :
    lex "x" = .ok [⟨.identifier, "x", ⟨1, 1⟩⟩, ⟨.eof, "", ⟨1, 2⟩⟩] ∧
    2 ≤ ("x" : Bytes).charCount + 1 ∧ ("x" : Bytes).charCount ≤ 1 ∧
    parse [⟨.identifier, "x", ⟨1, 1⟩⟩, ⟨.semicolon, ";", ⟨1, 2⟩⟩] = .ok [.eval (.name "x")] ∧
    1 ≤ 2 / 2 := by
  have hlex : lex "x" = .ok [⟨.identifier, "x", ⟨1, 1⟩⟩, ⟨.eof, "", ⟨1, 2⟩⟩] := by decide +kernel
  have hparse : parse [⟨.identifier, "x", ⟨1, 1⟩⟩, ⟨.semicolon, ";", ⟨1, 2⟩⟩] =
      .ok [.eval (.name "x")] := by decide +kernel
  obtain ⟨hlexer, hparser⟩ := reading_makes_progress "x" _
  exact ⟨hlex, hlexer.count _ hlex, hlexer.charCount_le, hparse, hparser.count _ hparse⟩

end Arrowlet
