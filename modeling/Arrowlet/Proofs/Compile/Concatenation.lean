import Arrowlet.Proofs.Compile.Outcomes
import Arrowlet.Proofs.Token.Behind
import Mathlib.Control.Monad.Basic

/-!
# Texts one after the other

A program ends with a semicolon, and nothing goes on with that. So the tokens of a text behind one
that compiles are its own (`Reads.exists_lex_append`), and they are parsed as if they stood alone.
Two texts that compile therefore compile together, line after line (`compile_append`), and a text
that fails does so behind one that compiles, with the same error further down
(`compile_error_behind`).
-/

namespace Arrowlet

open Lexeme Grammar

/-- An error at another position. -/
def CompileError.relocate (move : Position → Position) : CompileError → CompileError
  | lex e => .lex (e.relocate move)
  | parse e => .parse (e.relocate move)
  | generate e => .generate e

/-! ## The end of a program -/

/-- The last token of a statement is a semicolon. -/
theorem Grammar.Statement.exists_stop {ts : List Token} {s : Stmt} (h : Statement ts s) :
    ∃ us stop, ts = us ++ [stop] ∧ stop.kind = .semicolon := by
  cases h with
  | @define keyword name arrow stop us _ _ _ _ _ hs => exact ⟨_, stop, rfl, hs⟩
  | @write keyword opening format comma closing stop us _ _ _ _ _ _ _ hs =>
    exact ⟨keyword :: opening :: format :: comma :: us ++ [closing], stop, by simp, hs⟩
  | @read keyword opening name closing stop _ _ _ _ hs =>
    exact ⟨[keyword, opening, name, closing], stop, rfl, hs⟩
  | @eval stop us _ _ hs => exact ⟨us, stop, rfl, hs⟩

/-- The last token of a program is a semicolon. -/
theorem Grammar.Program.exists_stop {ts : List Token} {p : Arrowlet.Program}
    (h : Grammar.Program ts p) : ∃ us stop, ts = us ++ [stop] ∧ stop.kind = .semicolon := by
  induction h with
  | single hs => exact hs.exists_stop
  | @cons ts us s p _ _ ih =>
    obtain ⟨vs, stop, rfl, hstop⟩ := ih
    exact ⟨ts ++ vs, stop, (List.append_assoc ..).symm, hstop⟩

/-- Nothing goes on with the last piece of a layout whose tokens are a program. -/
theorem Layout.WellFormed.closed {d : Layout} (h : d.WellFormed) {p : Program}
    (hp : Grammar.Program (beforeEnd d.tokens) p) : d.Closed := by
  intro piece hpiece b
  have hcontent : (beforeEnd d.tokens).map Token.content = d.pieces.map Piece.spelling :=
    content_tokensFrom h.pieces .start
  obtain ⟨us, stop, hus, hstop⟩ := hp.exists_stop
  have hlast := congrArg List.getLast? hcontent
  rw [hus, List.getLast?_map, List.getLast?_map, Option.mem_def.mp hpiece,
    List.getLast?_concat] at hlast
  have hkind : piece.kind = stop.kind := congrArg Prod.fst (Option.some.inj hlast.symm)
  rw [hkind, hstop]
  rfl

/-- A text behind one that is read as a program has its own tokens, or its own fault, at positions
behind the first text. -/
theorem Reads.exists_lex_append {s : Bytes} {p : Program} (h : Reads s p) :
    ∃ ts, Grammar.Program ts p ∧ ∀ text, lex (s ++ text) =
      ((lex text).map fun us => ts ++ us.map (Token.relocate (.behind s))).mapError
        (LexError.relocate (.behind s)) := by
  obtain ⟨ts, hts, hp⟩ := h
  obtain ⟨hs, d, hd, htext, rfl⟩ := lex_eq_ok_iff.mp hts
  have hprogram := parse_eq_ok_iff.mp hp
  exact ⟨_, hprogram, lex_append hs hd htext (hd.closed hprogram)⟩

/-! ## Two texts -/

/-- The end of the input does not come first where tokens parse. -/
theorem atEnd_of_parse {ts : List Token} {p : Program} (h : parse ts = .ok p) :
    Parser.atEnd ts = false := by
  obtain ⟨rest, hts, -⟩ := exists_beforeEnd_append ts
  rw [hts]
  exact (parse_eq_ok_iff.mp h).atEnd_append

/-- The end of the input does not come first in a text that is not blank. -/
theorem atEnd_of_lex {src : Bytes} {ts : List Token} (h : lex src = .ok ts)
    (hsrc : ∃ b ∈ src, ¬ isBlank b) : Parser.atEnd ts = false := by
  obtain ⟨-, ⟨pieces, last⟩, hd, rfl, rfl⟩ := lex_eq_ok_iff.mp h
  cases pieces with
  | nil =>
    obtain ⟨b, hb, hblank⟩ := hsrc
    exact absurd (Layout.wellFormed_nil_iff.mp hd b hb) hblank
  | cons piece pieces =>
    have hkind := (Layout.wellFormed_cons_iff.mp hd).1.kind_ne_eof
    simpa [Layout.tokens, Layout.tokensFrom, Parser.atEnd, Piece.token] using hkind

/-- Behind a program, tokens at other positions parse as the tokens do alone. -/
theorem Grammar.Program.parse_append_relocate {ts us : List Token} {p : Arrowlet.Program}
    (h : Grammar.Program ts p) (hus : Parser.atEnd us = false) (move : Position → Position) :
    parse (ts ++ us.map (Token.relocate move)) =
      ((parse us).map (p ++ ·)).mapError (ParseError.relocate move) := by
  have hne : us ≠ [] := by
    rintro rfl
    cases hus
  rw [h.parse_append (by rwa [Parser.atEnd_relocate]), parse_relocate move hne]
  cases parse us <;> rfl

/-- Two texts that are read as programs are read together as the statements of both. -/
theorem Reads.append {s t : Bytes} {p q : Program} (hs : Reads s p) (ht : Reads t q) :
    Reads (s ++ t) (p ++ q) := by
  obtain ⟨ts, hts, hlex⟩ := hs.exists_lex_append
  obtain ⟨us, hus, hq⟩ := ht
  refine ⟨_, by rw [hlex, hus]; rfl, ?_⟩
  rw [hts.parse_append_relocate (atEnd_of_parse hq), hq]
  rfl

/-- **Compiling two texts together is compiling them one after the other.** Two texts that compile
do so when one is put behind the other, to the lines of the first and those of the second between
one header and one footer. -/
theorem compile_append (s₁ s₂ b₁ b₂ : Bytes)
    (h₁ : compile s₁ = .ok (CText.header ++ b₁ ++ CText.footer))
    (h₂ : compile s₂ = .ok (CText.header ++ b₂ ++ CText.footer)) :
    compile (s₁ ++ s₂) = .ok (CText.header ++ (b₁ ++ b₂) ++ CText.footer) := by
  have hlines : ∀ {s b : Bytes}, compile s = .ok (CText.header ++ b ++ CText.footer) →
      ∃ p, Reads s p ∧ CText.stmts 1 p = .ok b := by
    intro s b h
    obtain ⟨p, hp, htext⟩ := compile_eq_ok_iff.mp h
    obtain ⟨lines, hlines, heq⟩ := Program.toC_eq_ok_iff.mp htext
    rw [List.append_cancel_left (List.append_cancel_right heq)]
    exact ⟨p, hp, hlines⟩
  obtain ⟨p, hp, hb₁⟩ := hlines h₁
  obtain ⟨q, hq, hb₂⟩ := hlines h₂
  have htogether := CText.stmts_append hb₁ hb₂
  exact compile_eq_ok_iff.mpr ⟨p ++ q, hp.append hq, Program.toC_eq_ok_iff.mpr ⟨_, htogether, rfl⟩⟩

/-- A definition and an expression that stands on the line after it. -/
theorem compile_append_pair :
    compile "DEF x <- 1 ;" = .ok (CText.header ++ "double x = 1;\n" ++ CText.footer) ∧
    compile "\nx + 2;" = .ok (CText.header ++ "x + 2;\n" ++ CText.footer) ∧
    compile ("DEF x <- 1 ;" ++ "\nx + 2;") =
      .ok (CText.header ++ ("double x = 1;\n" ++ "x + 2;\n") ++ CText.footer) := by
  have h₁ : compile "DEF x <- 1 ;" = .ok (CText.header ++ "double x = 1;\n" ++ CText.footer) := by
    decide +kernel
  have h₂ : compile "\nx + 2;" = .ok (CText.header ++ "x + 2;\n" ++ CText.footer) := by
    decide +kernel
  exact ⟨h₁, h₂, compile_append _ _ _ _ h₁ h₂⟩

/-- **A text fails behind another one as it fails alone.** If a text compiles and another one, which
is not blank, does not, then this one put behind the first is refused with the same error at the
position that it has there: lines go up by the line feeds of the first text, and columns of the
first line by the characters after the last of these. -/
theorem compile_error_behind (s₁ s₂ text : Bytes) (e : CompileError) (h₁ : compile s₁ = .ok text)
    (hs₂ : ∃ b ∈ s₂, ¬ isBlank b) (h₂ : compile s₂ = .error e) :
    compile (s₁ ++ s₂) = .error (e.relocate (.behind s₁)) := by
  obtain ⟨p, hp, -⟩ := compile_eq_ok_iff.mp h₁
  obtain ⟨ts, hts, hlex⟩ := hp.exists_lex_append
  rcases compile_cases s₂ with
    ⟨lines, hok⟩ | ⟨e', herror, hcompile⟩ | ⟨us, e', hus, herror, hcompile⟩
  · cases h₂.symm.trans hok
  · cases h₂.symm.trans hcompile
    refine compile_of_lex_error ?_
    rw [hlex, herror]
    rfl
  · cases h₂.symm.trans hcompile
    refine compile_of_parse_error (by rw [hlex, hus]; rfl) ?_
    rw [hts.parse_append_relocate (atEnd_of_lex hus hs₂), herror]
    rfl

/-- An error in the first line moves to the right by the characters before it, and one in a later
line moves down only. -/
theorem compile_error_behind_output :
    compile "  x + ;" =
      .error (.parse ⟨[.number, .identifier, .lparen], ⟨.semicolon, ";", ⟨1, 7⟩⟩⟩) ∧
    compile ("DEF x <- 1;\nWRITE(\"é\", x);" ++ "  x + ;") =
      .error (.parse ⟨[.number, .identifier, .lparen], ⟨.semicolon, ";", ⟨2, 21⟩⟩⟩) ∧
    compile ("DEF x <- 1;\nWRITE(\"é\", x);" ++ "\n ?") =
      .error (.lex ⟨0x3f, ⟨3, 2⟩, .unexpected⟩) := by
  obtain ⟨text, htext⟩ : ∃ text, compile "DEF x <- 1;\nWRITE(\"é\", x);" = .ok text :=
    ⟨CText.header ++ "double x = 1;\nprintf(\"é\", x);\n" ++ CText.footer, by decide +kernel⟩
  have hparse : compile "  x + ;" =
      .error (.parse ⟨[.number, .identifier, .lparen], ⟨.semicolon, ";", ⟨1, 7⟩⟩⟩) := by
    decide +kernel
  have hlex : compile "\n ?" = .error (.lex ⟨0x3f, ⟨2, 2⟩, .unexpected⟩) := by decide +kernel
  refine ⟨hparse, ?_, ?_⟩
  · refine (compile_error_behind _ _ _ _ htext ⟨0x3b, by decide, by decide⟩ hparse).trans ?_
    decide +kernel
  · refine (compile_error_behind _ _ _ _ htext ⟨0x3f, by decide, by decide⟩ hlex).trans ?_
    decide +kernel

end Arrowlet
