import Arrowlet.Proofs.CText.Injective

/-!
# What compiling can come to

A tree cannot be written as C only if a node is missing or unknown or an operator is not arithmetic.
What parses is complete, so that it is always written (`exists_generate_of_parse`): compiling fails
where the text has no tokens or the tokens are no program, and nowhere else (`compile_cases`).
Statements are written one after the other, so the lines of two programs are those of the program
that has the statements of both (`CText.stmts_append`).
-/

namespace Arrowlet

/-- A complete statement has a line. -/
theorem Stmt.IsComplete.exists_line {s : Stmt} (h : s.IsComplete) :
    ∃ line, CText.stmt s = .ok line := by
  have expr : ∀ e ∈ s.exprs, ∃ text, CText.expr e = .ok text := fun e he => (h.2 e he).exists_cText
  cases s with
  | define name value | write format value | eval value =>
    obtain ⟨text, htext⟩ := expr value (.head _)
    exact ⟨_, bind_eq_ok_iff.mpr ⟨text, htext, rfl⟩⟩
  | read name => exact ⟨_, rfl⟩
  | missing | unknown => cases h.1

namespace CText

variable {p q : List Stmt} {m n : Nat} {lines lines' : Bytes}

/-- Complete statements have lines. -/
theorem exists_stmts (h : ∀ s ∈ p, s.IsComplete) (n : Nat) : ∃ lines, stmts n p = .ok lines := by
  induction p generalizing n with
  | nil => exact ⟨[], rfl⟩
  | cons s p ih =>
    obtain ⟨hs, hp⟩ := List.forall_mem_cons.mp h
    obtain ⟨line, hline⟩ := hs.exists_line
    obtain ⟨lines, hlines⟩ := ih hp (n + 1)
    exact ⟨_, stmts_cons_eq_ok_iff.mpr ⟨line, lines, hline, hlines, rfl⟩⟩

/-- The lines of statements do not depend on what the statements are numbered from. -/
theorem stmts_eq_ok_of_number (h : stmts n p = .ok lines) (m : Nat) : stmts m p = .ok lines := by
  induction p generalizing m n lines with
  | nil => exact h
  | cons s p ih =>
    obtain ⟨line, rest, hline, hrest, rfl⟩ := stmts_cons_eq_ok_iff.mp h
    exact stmts_cons_eq_ok_iff.mpr ⟨line, rest, hline, ih hrest (m + 1), rfl⟩

/-- Statements are written one after the other. -/
theorem stmts_append (hp : stmts m p = .ok lines) (hq : stmts n q = .ok lines') :
    stmts m (p ++ q) = .ok (lines ++ lines') := by
  induction p generalizing m lines with
  | nil =>
    cases hp
    exact stmts_eq_ok_of_number hq m
  | cons s p ih =>
    obtain ⟨line, rest, hline, hrest, rfl⟩ := stmts_cons_eq_ok_iff.mp hp
    refine stmts_cons_eq_ok_iff.mpr ⟨line, rest ++ lines', hline, ih hrest, ?_⟩
    rw [List.append_assoc, List.cons_append]

end CText

/-- A C text is the lines of the statements between header and footer. -/
theorem Program.toC_eq_ok_iff {p : Program} {text : Bytes} :
    p.toC = .ok text ↔
      ∃ lines, CText.stmts 1 p = .ok lines ∧ text = CText.header ++ lines ++ CText.footer := by
  rw [toC, bind_eq_ok_iff]
  constructor
  · rintro ⟨lines, hlines, htext⟩
    cases htext
    exact ⟨lines, hlines, rfl⟩
  · rintro ⟨lines, hlines, rfl⟩
    exact ⟨lines, hlines, rfl⟩

/-- What parses is written as C. -/
theorem exists_generate_of_parse {ts : List Token} {p : Program} (h : parse ts = .ok p) :
    ∃ lines, generate (some p) = .ok (CText.header ++ lines ++ CText.footer) := by
  obtain ⟨-, hstmts, -⟩ := parse_eq_ok_iff_flatten.mp h
  obtain ⟨lines, hlines⟩ := CText.exists_stmts (fun s hs => (hstmts s hs).1) 1
  exact ⟨lines, Program.toC_eq_ok_iff.mpr ⟨lines, hlines, rfl⟩⟩

/-- A text without tokens is refused with the error of reading them. -/
theorem compile_of_lex_error {src : Bytes} {e : LexError} (h : lex src = .error e) :
    compile src = .error (.lex e) := by
  rw [compile, h]
  rfl

/-- A text whose tokens are no program is refused with the error of parsing them. -/
theorem compile_of_parse_error {src : Bytes} {ts : List Token} {e : ParseError}
    (hts : lex src = .ok ts) (h : parse ts = .error e) : compile src = .error (.parse e) := by
  rw [compile, hts]
  change (parse ts).mapError _ >>= _ = _
  rw [h]
  rfl

/-- A text is compiled, or it has no tokens, or its tokens are no program. -/
theorem compile_cases (src : Bytes) :
    (∃ lines, compile src = .ok (CText.header ++ lines ++ CText.footer)) ∨
    (∃ e, lex src = .error e ∧ compile src = .error (.lex e)) ∨
    ∃ ts e, lex src = .ok ts ∧ parse ts = .error e ∧ compile src = .error (.parse e) := by
  cases hts : lex src with
  | error e => exact .inr (.inl ⟨e, rfl, compile_of_lex_error hts⟩)
  | ok ts =>
    cases hp : parse ts with
    | error e => exact .inr (.inr ⟨ts, e, rfl, hp, compile_of_parse_error hts hp⟩)
    | ok p =>
      obtain ⟨lines, hlines⟩ := exists_generate_of_parse hp
      exact .inl ⟨lines, compile_eq_ok_iff.mpr ⟨p, ⟨ts, hts, hp⟩, hlines⟩⟩

end Arrowlet
