import Arrowlet.Proofs.Compile.Outcomes

/-!
# Why a program cannot be written as C

A tree that was put together by hand may have several faults: nodes that are missing or of an
unknown sort, and operators that are not arithmetic. `Expr.faults` and `Stmt.faults` list them in
the order in which a reader of the tree comes upon them, a node before the nodes below it and these
from left to right.

An expression is written by looking at its nodes in this order, so that it fails with the first
fault (`CText.expr_failsAtFirst`); a program fails at its first statement that has one
(`CText.stmts_eq_error_iff`). `generate_fails_at_first_fault` puts this together.
-/

namespace Arrowlet

/-! ## The faults of a tree -/

/-- What is wrong with the node at the root of an expression. -/
def Expr.fault? : Expr → Option NodeFault
  | binary .plus _ _ | binary .minus _ _ | binary .star _ _ | binary .slash _ _ => none
  | binary op _ _ => some (.badOperator op)
  | missing => some .missingExpr
  | unknown sort _ => some (.unknownExpr sort)
  | number _ | name _ | group _ => none

/-- The faults of the nodes of an expression, each before those below it, from left to right. -/
def Expr.faults (e : Expr) : List NodeFault := e.parts.filterMap fault?

/-- What is wrong with a statement, apart from its expression. -/
def Stmt.fault? : Stmt → Option NodeFault
  | missing => some .missingStmt
  | unknown sort _ => some (.unknownStmt sort)
  | define _ _ | write _ _ | read _ | eval _ => none

/-- The faults of a statement, its own before those of its expression. -/
def Stmt.faults (s : Stmt) : List NodeFault := s.fault?.toList ++ s.exprs.flatMap Expr.faults

/-- What is said about a fault. A node of an unknown sort is named by its sort, and an operator by
its kind. -/
inductive NodeFault.Reads : NodeFault → Bytes → Prop
  | missingExpr : Reads .missingExpr "missing expression"
  | unknownExpr (sort : Bytes) : Reads (.unknownExpr sort) ("unsupported expression " ++ sort)
  | badOperator (op : Kind) : Reads (.badOperator op) ("unsupported binary operator " ++ op.name)
  | missingStmt : Reads .missingStmt "missing statement"
  | unknownStmt (sort : Bytes) : Reads (.unknownStmt sort) ("unsupported statement " ++ sort)

theorem NodeFault.reads_message (fault : NodeFault) : fault.Reads fault.message := by
  cases fault with
  | missingExpr => exact .missingExpr
  | unknownExpr sort => exact .unknownExpr sort
  | badOperator op => exact .badOperator op
  | missingStmt => exact .missingStmt
  | unknownStmt sort => exact .unknownStmt sort

/-- The four operators are those of arithmetic. -/
theorem Expr.fault?_binary (op : Kind) (left right : Expr) :
    (binary op left right).fault? = if op.isOperator then none else some (.badOperator op) := by
  cases op <;> rfl

/-- A statement has no faults if nothing is wrong with it and with any node of its expression. -/
theorem Stmt.faults_eq_nil_iff {s : Stmt} :
    s.faults = [] ↔ s.fault? = none ∧ ∀ value ∈ s.exprs, ∀ e ∈ value.parts, e.fault? = none := by
  simp [faults, Expr.faults]

/-! ## The first fault -/

namespace CText

/-- An expression is refused for its first fault. -/
theorem expr_failsAtFirst (e : Expr) : FailsAtFirst (expr e) e.faults := by
  induction e with
  | number | name | missing | unknown => rfl
  | binary op left right ihl ihr =>
    rw [Expr.faults, Expr.parts, List.filterMap_cons, Expr.fault?_binary, List.filterMap_append,
      expr]
    split
    · refine ihl.bind fun l => ?_
      rw [← List.append_nil (List.filterMap _ _)]
      exact ihr.bind fun r => rfl
    · rfl
  | group inner ih =>
    rw [Expr.faults, Expr.parts, List.filterMap_cons, ← List.append_nil (List.filterMap _ _)]
    exact ih.bind fun text => rfl

/-- A statement is refused for its first fault. -/
theorem stmt_failsAtFirst (s : Stmt) : FailsAtFirst (stmt s) s.faults := by
  cases s with
  | define name value | write format value | eval value =>
    rw [Stmt.faults, Stmt.exprs, List.flatMap_cons]
    exact (expr_failsAtFirst value).bind fun text => rfl
  | read | missing | unknown => rfl

variable {p : List Stmt} {n : Nat}

/-- Statements are refused at the first one that has a fault, for its first fault. -/
theorem stmts_eq_error_iff {e : GenerateError} :
    stmts n p = .error e ↔ ∃ before s after fault, p = before ++ s :: after ∧
      (∀ b ∈ before, b.faults = []) ∧ s.faults.head? = some fault ∧
      e = .statement (before.length + n) fault := by
  induction p generalizing n with
  | nil =>
    refine iff_of_false nofun ?_
    rintro ⟨before, s, after, fault, hp, -⟩
    simp at hp
  | cons s p ih =>
    have hs := stmt_failsAtFirst s
    simp only [stmts, bind_eq_error_iff, mapError_eq_error_iff, mapError_eq_ok_iff, ih,
      hs.eq_error_iff]
    constructor
    · rintro (⟨fault, hfault, rfl⟩ | ⟨line, hline, hrest⟩)
      · exact ⟨[], s, p, fault, rfl, by simp, hfault, by rw [List.length_nil, Nat.zero_add]⟩
      · rcases hrest with ⟨before, s', after, fault, rfl, hbefore, hfault, rfl⟩ | ⟨lines, -, hok⟩
        · refine ⟨s :: before, s', after, fault, rfl, ?_, hfault, ?_⟩
          · exact List.forall_mem_cons.mpr ⟨hs.exists_ok_iff.mp ⟨line, hline⟩, hbefore⟩
          · rw [List.length_cons, Nat.add_right_comm, Nat.add_assoc]
        · cases hok
    · rintro ⟨before, s', after, fault, hp, hbefore, hfault, rfl⟩
      cases before with
      | nil =>
        cases hp
        exact .inl ⟨fault, hfault, by rw [List.length_nil, Nat.zero_add]⟩
      | cons b before =>
        cases hp
        obtain ⟨hb, hbefore⟩ := List.forall_mem_cons.mp hbefore
        obtain ⟨line, hline⟩ := hs.exists_ok_iff.mpr hb
        refine .inr ⟨line, hline, .inl ⟨before, s', after, fault, rfl, hbefore, hfault, ?_⟩⟩
        rw [List.length_cons, Nat.add_right_comm, Nat.add_assoc]

/-- Statements are written one after the other, each with a line feed behind it. -/
theorem stmts_eq_ok_iff {text : Bytes} :
    stmts n p = .ok text ↔ ∃ lines : List Bytes, p.map stmt = lines.map .ok ∧
      text = lines.flatMap (· ++ [Bytes.lineFeed]) := by
  induction p generalizing n text with
  | nil =>
    constructor
    · intro h
      cases h
      exact ⟨[], rfl, rfl⟩
    · rintro ⟨lines, hlines, rfl⟩
      rw [List.map_eq_nil_iff.mp hlines.symm]
      rfl
  | cons s p ih =>
    simp only [stmts_cons_eq_ok_iff, ih]
    constructor
    · rintro ⟨line, _, hline, ⟨lines, hlines, rfl⟩, rfl⟩
      exact ⟨line :: lines, by rw [List.map_cons, List.map_cons, hline, hlines], by simp⟩
    · rintro ⟨lines, hlines, rfl⟩
      cases lines with
      | nil => cases hlines
      | cons line lines =>
        rw [List.map_cons, List.map_cons, List.cons.injEq] at hlines
        exact ⟨line, _, hlines.1, ⟨lines, hlines.2, rfl⟩, by simp⟩

end CText

namespace Program

variable {p : Program}

/-- A program is written as the lines of its statements between header and footer. -/
theorem toC_eq_ok_iff_lines {text : Bytes} :
    p.toC = .ok text ↔ ∃ lines : List Bytes, p.map CText.stmt = lines.map .ok ∧
      text = CText.header ++ lines.flatMap (· ++ [Bytes.lineFeed]) ++ CText.footer := by
  simp only [toC_eq_ok_iff, CText.stmts_eq_ok_iff]
  constructor
  · rintro ⟨_, ⟨lines, hlines, rfl⟩, rfl⟩
    exact ⟨lines, hlines, rfl⟩
  · rintro ⟨lines, hlines, rfl⟩
    exact ⟨_, ⟨lines, hlines, rfl⟩, rfl⟩

/-- A program is written if its statements have no faults. -/
theorem exists_toC_iff : (∃ text, p.toC = .ok text) ↔ ∀ s ∈ p, s.faults = [] := by
  simp only [toC_eq_ok_iff_lines, ← (CText.stmt_failsAtFirst _).exists_ok_iff]
  constructor
  · rintro ⟨_, lines, hlines, -⟩ s hs
    obtain ⟨line, -, hline⟩ := exists_mem_of_map_eq_map_ok hlines hs
    exact ⟨line, hline⟩
  · intro h
    obtain ⟨lines, hlines⟩ := exists_mapM_eq_ok h
    exact ⟨_, lines, mapM_eq_ok_iff.mp hlines, rfl⟩

/-- A program is refused as its statements are. -/
theorem toC_eq_error_iff {e : GenerateError} : p.toC = .error e ↔ CText.stmts 1 p = .error e := by
  rw [toC, bind_eq_error_iff]
  refine or_iff_left ?_
  rintro ⟨lines, -, h⟩
  cases h

end Program

/-- **A program is written exactly if it has no faults, and is refused for its first one.** It is
written if nothing is wrong with any of its statements and with any node of their expressions, as
the lines of the statements between header and footer. Otherwise it is refused with the number of
the first statement that has a fault, and with the first fault of this statement, and both are said
in the message. -/
theorem generate_fails_at_first_fault :
    (generate none = .error .noProgram ∧
      GenerateError.noProgram.message = "generate: nil program") ∧ ∀ p : Program,
      ((∃ text, generate (some p) = .ok text) ↔ ∀ s ∈ p,
        s.fault? = none ∧ ∀ value ∈ s.exprs, ∀ e ∈ value.parts, e.fault? = none) ∧
      (∀ text, generate (some p) = .ok text ↔ ∃ lines : List Bytes,
        p.map CText.stmt = lines.map .ok ∧
        text = CText.header ++ lines.flatMap (· ++ [Bytes.lineFeed]) ++ CText.footer) ∧
      ∀ e, generate (some p) = .error e ↔ ∃ before s after fault, p = before ++ s :: after ∧
        (∀ b ∈ before, b.faults = []) ∧ s.faults.head? = some fault ∧
        e = .statement (before.length + 1) fault ∧ ∃ text, fault.Reads text ∧
          e.message =
            "generate: statement " ++ Bytes.decimal (before.length + 1) ++ ": " ++ text := by
  refine ⟨⟨rfl, rfl⟩, fun p => ⟨?_, fun text => Program.toC_eq_ok_iff_lines, fun e => ?_⟩⟩
  · simp only [← Stmt.faults_eq_nil_iff]
    exact Program.exists_toC_iff
  · refine (Program.toC_eq_error_iff.trans CText.stmts_eq_error_iff).trans ?_
    constructor
    · rintro ⟨before, s, after, fault, hp, hbefore, hfault, rfl⟩
      exact ⟨before, s, after, fault, hp, hbefore, hfault, rfl, _, fault.reads_message, rfl⟩
    · rintro ⟨before, s, after, fault, hp, hbefore, hfault, he, -⟩
      exact ⟨before, s, after, fault, hp, hbefore, hfault, he⟩

/-- A program whose second statement has three faults: an operator that is a comma, an operand that
is missing to the left of it and one that is unknown to the right. -/
def faultyProgram : Program :=
  [.read "x", .eval (.group (.binary .comma .missing (.unknown "Call" "f()"))), .missing]

/-- The operator is looked at first, and the third statement not at all. -/
theorem generate_fails_at_first_fault_operator :
    generate (some faultyProgram) = .error (.statement 2 (.badOperator .comma)) ∧
    (GenerateError.statement 2 (.badOperator .comma)).message =
      "generate: statement 2: unsupported binary operator COMMA" := by
  refine ⟨((generate_fails_at_first_fault.2 faultyProgram).2.2 _).mpr ?_, by decide⟩
  exact ⟨[.read "x"], _, [.missing], .badOperator .comma, rfl,
    List.forall_mem_singleton.mpr rfl, rfl, rfl, _, .badOperator .comma, rfl⟩

end Arrowlet
