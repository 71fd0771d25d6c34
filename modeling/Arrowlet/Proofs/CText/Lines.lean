import Arrowlet.Proofs.Compile.Outcomes
import Arrowlet.Proofs.Text.Lines
import Mathlib.Data.List.Infix

/-!
# The lines of a C text

Statements that are spelled are written without a line feed, so that the lines of a C text are those
of the header, one for each statement in its order, and those of the footer (`Program.lines_toC`).

A line shows what its statement is: definitions, outputs and inputs have forms of their own
(`CText.HasForm`), and the line of an expression has none of these, since each of them holds a byte
that expressions are not written with. A keyword stands at the beginning of its statement and
nowhere else (`Stmt.IsComplete.count_keyword`). So the lines that define something are counted by
the keywords of the source (`compile_writes_line_per_statement`).
-/

namespace Arrowlet

open Bytes

namespace CText

/-- The lines before those of the statements. -/
def headerLines : List Bytes := ["#include <stdio.h>", "", "int main() \x7b"]

/-- The lines after those of the statements. The text ends with a line feed, so the last of them is
empty. -/
def footerLines : List Bytes := ["return 0;", "\x7d", ""]

theorem lines_header_append (text : Bytes) :
    (header ++ text).lines = headerLines ++ text.lines := by
  have hheader : header = "#include <stdio.h>" ++ lineFeed :: ("" ++ lineFeed ::
      ("int main() \x7b" ++ [lineFeed])) := by decide
  simp only [hheader, List.append_assoc, List.cons_append, List.nil_append]
  rw [lines_append_lineFeed (by decide), lines_append_lineFeed (by decide),
    lines_append_lineFeed (by decide)]
  rfl

/-- Each statement has a line of its own, whatever follows the last one. -/
theorem exists_lines_stmts {p : List Stmt} {n : Nat} {text : Bytes} (hp : ∀ s ∈ p, s.IsSpelled)
    (h : stmts n p = .ok text) :
    ∃ ls, p.map stmt = ls.map .ok ∧ ∀ rest, (text ++ rest).lines = ls ++ rest.lines := by
  induction p generalizing n text with
  | nil =>
    cases h
    exact ⟨[], rfl, fun rest => rfl⟩
  | cons s p ih =>
    obtain ⟨hs, hp⟩ := List.forall_mem_cons.mp hp
    obtain ⟨line, lines, hline, hlines, rfl⟩ := stmts_cons_eq_ok_iff.mp h
    obtain ⟨ls, hls, hrest⟩ := ih hp hlines
    refine ⟨line :: ls, by rw [List.map_cons, List.map_cons, hline, hls], fun rest => ?_⟩
    rw [List.append_assoc, List.cons_append,
      lines_append_lineFeed (lineFeed_notMem_of_stmt hs hline), hrest, List.cons_append]

end CText

/-- The lines of a C text are those of the header, of the statements and of the footer. -/
theorem Program.lines_toC {p : Program} {code : Bytes} (hp : ∀ s ∈ p, s.IsSpelled)
    (h : p.toC = .ok code) :
    ∃ ls, p.map CText.stmt = ls.map .ok ∧
      code.lines = CText.headerLines ++ ls ++ CText.footerLines := by
  obtain ⟨text, htext, rfl⟩ := Program.toC_eq_ok_iff.mp h
  obtain ⟨ls, hls, hlines⟩ := CText.exists_lines_stmts hp htext
  refine ⟨ls, hls, ?_⟩
  rw [List.append_assoc, CText.lines_header_append, hlines, List.append_assoc]
  rfl

/-! ## Forms of lines -/

namespace CText

/-- What the line of a definition begins with. -/
def definitionHead (name : Bytes) : Bytes := "double " ++ name ++ " = "

/-- What the line of an output begins with. -/
def outputHead (format : Bytes) : Bytes := "printf(" ++ format ++ ", "

/-- The line of an input. -/
def inputLine (name : Bytes) : Bytes := "scanf(\"%lf\", &" ++ name ++ ");"

/-- The line begins like the definition of some name. -/
def IsDefinition (line : Bytes) : Prop := ∃ name, definitionHead name <+: line

/-- The line begins like an output under some format. -/
def IsOutput (line : Bytes) : Prop := ∃ format, outputHead format <+: line

/-- The line is an input to some name. -/
def IsInput (line : Bytes) : Prop := ∃ name, line = inputLine name

/-- The line has the form that lines of the statement have, with the name or format of the
statement. The line of an expression has none of the forms. -/
def HasForm : Stmt → Bytes → Prop
  | .define name _, line => definitionHead name <+: line
  | .write format _, line => outputHead format <+: line
  | .read name, line => line = inputLine name
  | .eval _, line => ¬ IsDefinition line ∧ ¬ IsOutput line ∧ ¬ IsInput line
  | .missing, _ | .unknown _ _, _ => False

variable {s : Stmt} {line : Bytes}

theorem isDefinition_iff :
    IsDefinition line ↔ ("double " : Bytes) <+: line ∧ (" = " : Bytes) <:+: line.drop 7 := by
  constructor
  · rintro ⟨name, rest, rfl⟩
    refine ⟨⟨name ++ " = " ++ rest, ?_⟩, name, rest, ?_⟩
    · simp only [definitionHead, List.append_assoc]
    · simp only [definitionHead, List.append_assoc]
      rfl
  · rintro ⟨⟨tail, rfl⟩, name, rest, hrest⟩
    refine ⟨name, rest, ?_⟩
    rw [definitionHead, List.append_assoc, List.append_assoc, ← List.append_assoc name, hrest]
    rfl

instance : DecidablePred IsDefinition := fun _ => decidable_of_iff _ isDefinition_iff.symm

/-- The line of a spelled statement has its form. -/
theorem hasForm_of_stmt (h : s.IsSpelled) (hline : stmt s = .ok line) : HasForm s line := by
  cases s with
  | define name value =>
    obtain ⟨text, -, hline⟩ := bind_eq_ok_iff.mp hline
    cases hline
    exact ⟨text ++ ";", (List.append_assoc ..).symm⟩
  | write format value =>
    obtain ⟨text, -, hline⟩ := bind_eq_ok_iff.mp hline
    cases hline
    exact ⟨text ++ ");", (List.append_assoc ..).symm⟩
  | read name =>
    cases hline
    rfl
  | eval value =>
    obtain ⟨text, htext, hline⟩ := bind_eq_ok_iff.mp hline
    cases hline
    -- Each form has a byte that no expression is written with.
    refine ⟨?_, ?_, ?_⟩
    · rintro ⟨name, hbegins⟩
      have hequals : 0x3d ∈ definitionHead name := List.mem_append_right _ (by decide)
      exact notMem_eval_line h htext (by decide) (by decide) (hbegins.subset hequals)
    · rintro ⟨format, hbegins⟩
      have hcomma : 0x2c ∈ outputHead format := List.mem_append_right _ (by decide)
      exact notMem_eval_line h htext (by decide) (by decide) (hbegins.subset hcomma)
    · rintro ⟨name, hwhole⟩
      have hquote : quote ∈ inputLine name :=
        List.mem_append_left _ (List.mem_append_left _ (by decide))
      exact notMem_eval_line h htext (by decide) (by decide) (hwhole ▸ hquote)
  | missing | unknown => exact h.elim

/-- Only lines of definitions begin like definitions. -/
theorem HasForm.isDefinition_iff_keyword? (h : HasForm s line) :
    IsDefinition line ↔ s.keyword? = some .define := by
  have hfirst : IsDefinition line → line.head? = some 0x64 := by
    rintro ⟨name, rest, rfl⟩
    rfl
  cases s with
  | define name value => exact iff_of_true ⟨name, h⟩ rfl
  | write format value =>
    obtain ⟨rest, rfl⟩ := h
    exact iff_of_false (fun hdefinition => by cases hfirst hdefinition) nofun
  | read name =>
    cases h
    exact iff_of_false (fun hdefinition => by cases hfirst hdefinition) nofun
  | eval value => exact iff_of_false h.1 nofun
  | missing | unknown => exact h.elim

/-- There are as many lines of definitions as definitions. -/
theorem countP_isDefinition {p : List Stmt} {ls : List Bytes} (h : List.Forall₂ HasForm p ls) :
    ls.countP (IsDefinition ·) = p.countP (·.keyword? = some .define) := by
  induction h with
  | nil => rfl
  | cons hform _ ih => simp only [List.countP_cons, hform.isDefinition_iff_keyword?, ih]

end CText

/-! ## Keywords -/

open Lexeme

/-- No token of a complete expression is a keyword. -/
theorem Expr.IsComplete.kind_notMem_keywords {e : Expr} (h : e.IsComplete) :
    ∀ l ∈ e.flatten, l.1 ∉ keywords := by
  induction e with
  | number | name => exact List.forall_mem_singleton.mpr (by simp [keywords])
  | binary op left right ihl ihr =>
    obtain ⟨hop, hl, hr⟩ := h
    rw [flatten, List.forall_mem_append, List.forall_mem_cons]
    refine ⟨ihl hl, fun hkeyword => ?_, ihr hr⟩
    have hkind : op ∈ keywords := hkeyword
    simp only [keywords, List.mem_cons, List.not_mem_nil, or_false] at hkind
    rcases hkind with rfl | rfl | rfl <;> cases hop
  | group inner ih =>
    rw [flatten, List.forall_mem_append, List.forall_mem_cons, List.forall_mem_singleton]
    exact ⟨⟨by decide, ih h⟩, by decide⟩
  | missing | unknown => exact h.elim

/-- A complete statement has its keyword once, and no other. -/
theorem Stmt.IsComplete.count_keyword {s : Stmt} (h : s.IsComplete) {k : Kind}
    (hk : k ∈ keywords) :
    (s.flatten.map Prod.fst).count k = if s.keyword? = some k then 1 else 0 := by
  have hvalue : ∀ e ∈ s.exprs, (e.flatten.map Prod.fst).count k = 0 := by
    intro e he
    rw [List.count_eq_zero, List.mem_map]
    rintro ⟨l, hl, rfl⟩
    exact (h.2 e he).kind_notMem_keywords l hl hk
  simp only [keywords, List.mem_cons, List.not_mem_nil, or_false] at hk
  cases s with
  | define name value | write format value | eval value =>
    simp only [flatten, Kind.fixed, List.cons_append, List.map_append, List.map_cons, List.map_nil,
      List.count_append, List.count_cons, List.count_nil, hvalue value (.head _)]
    rcases hk with rfl | rfl | rfl <;> rfl
  | read name => rcases hk with rfl | rfl | rfl <;> rfl
  | missing | unknown => cases h.1

/-- There are as many keywords of a kind as statements that begin with it. -/
theorem Program.count_keyword {p : Program} (h : ∀ s ∈ p, s.IsComplete) {k : Kind}
    (hk : k ∈ keywords) :
    (p.flatten.map Prod.fst).count k = p.countP (·.keyword? = some k) := by
  induction p with
  | nil => rfl
  | cons s p ih =>
    obtain ⟨hs, hp⟩ := List.forall_mem_cons.mp h
    rw [List.countP_cons, ← ih hp, flatten, List.flatMap_cons, List.map_append, List.count_append,
      hs.count_keyword hk, Nat.add_comm]
    simp only [decide_eq_true_eq]
    rfl

/-- The tokens of a text that is read as a program have as many keywords of a kind as the program
has statements that begin with it. -/
theorem Reads.count_keyword {src : Bytes} {ts : List Token} {p : Program} (h : Reads src p)
    (hts : lex src = .ok ts) {k : Kind} (hk : k ∈ keywords) :
    (ts.map Token.kind).count k = p.countP (·.keyword? = some k) := by
  obtain ⟨-, hstmts, hflat⟩ := (reads_iff_spelling hts).mp h
  have hkinds : ts.map Token.kind = p.flatten.map Prod.fst ++ [.eof] := by
    have hmap := congrArg (List.map Prod.fst) hflat
    rw [List.map_map, List.map_append] at hmap
    exact hmap
  have heof : [Kind.eof].count k = 0 := by
    rw [List.count_eq_zero, List.mem_singleton]
    rintro rfl
    exact absurd hk (by decide)
  rw [hkinds, List.count_append, heof, Nat.add_zero,
    Program.count_keyword (fun s hs => (hstmts s hs).1) hk]

/-- **One line per statement.** The lines of the C text of a source are those of the header, one for
each statement in its order, and those of the footer. The line of a statement has the form of its
sort, with its own name or format, and the line of an expression has none of the forms. So there are
as many lines that define something as the source has keywords for it. -/
theorem compile_writes_line_per_statement {src code : Bytes} (h : compile src = .ok code) :
    ∃ ts p ls, lex src = .ok ts ∧ parse ts = .ok p ∧
      code.lines = CText.headerLines ++ ls ++ CText.footerLines ∧
      List.Forall₂ CText.HasForm p ls ∧
      code.lines.countP (CText.IsDefinition ·) = (ts.map Token.kind).count .define := by
  obtain ⟨p, hp, htoC⟩ := compile_eq_ok_iff.mp h
  have ⟨ts, hts, hparse⟩ := hp
  have hspelled := fun s hs => (hp.isSpelled s hs).1
  obtain ⟨ls, hls, hlines⟩ := Program.lines_toC hspelled htoC
  have hforms : List.Forall₂ CText.HasForm p ls :=
    ((List.forall₂_and_left _ _).mpr ⟨hspelled, forall₂_of_map_eq_map_ok hls⟩).imp
      fun s line hstmt => CText.hasForm_of_stmt hstmt.1 hstmt.2
  refine ⟨ts, p, ls, hts, hparse, hlines, hforms, ?_⟩
  have hheader : CText.headerLines.countP (CText.IsDefinition ·) = 0 := by decide
  have hfooter : CText.footerLines.countP (CText.IsDefinition ·) = 0 := by decide
  rw [hlines, List.countP_append, List.countP_append, hheader, hfooter,
    CText.countP_isDefinition hforms, hp.count_keyword hts (by decide), Nat.zero_add, Nat.add_zero]

/-- A program that prints what looks like a definition and evaluates a variable of that name. -/
def lookalikes : Bytes := "DEF x<-1;WRITE(\"double y = \",x);double;DEF x<-x;"

/-- The lines of its statements. -/
def lookalikeLines : List Bytes :=
  ["double x = 1;", "printf(\"double y = \", x);", "double;", "double x = x;"]

/-- Only the lines of the two definitions are counted, and not those that look like one. -/
theorem compile_writes_line_per_statement_lookalikes :
    ∃ ts p, lex lookalikes = .ok ts ∧ parse ts = .ok p ∧
      List.Forall₂ CText.HasForm p lookalikeLines ∧ (ts.map Token.kind).count .define = 2 := by
  have hcode : compile lookalikes = .ok (CText.header ++
      lookalikeLines.flatMap (· ++ [lineFeed]) ++ CText.footer) := by decide +kernel
  obtain ⟨ts, p, ls, hts, hparse, hlines, hforms, hcount⟩ :=
    compile_writes_line_per_statement hcode
  have hsame : CText.headerLines ++ lookalikeLines ++ CText.footerLines =
      CText.headerLines ++ ls ++ CText.footerLines := Eq.trans (by decide +kernel) hlines
  cases List.append_cancel_left (List.append_cancel_right hsame)
  exact ⟨ts, p, hts, hparse, hforms, hcount.symm.trans (by decide +kernel)⟩

end Arrowlet
