import Arrowlet.Dump
import Arrowlet.Proofs.Command.Failures
import Arrowlet.Proofs.Diagnostic.Caret

/-!
# The dump agrees with the compiler

The dump goes through the stages of compiling by itself and shows each of them. It ends where
compiling ends: a program that parses can be written, so the dump stops at tokens or grammar, or
shows the C text.

What it says about a failure is the diagnostic that a run of the command gives after the path,
whenever it blames the file (`Command.stderr_blame`). The message is ended with a line feed unless
it has one already, and a diagnostic has none: its last line is the one with the caret
(`Diagnostic.Locates.terminated_append`).

The tokens are listed one on each line, since the text of a token quotes its lexeme
(`Dump.lines_tokenSection`). So the number above the list is that of its lines.
-/

namespace Arrowlet

open Bytes

/-! ## Ends of diagnostics -/

/-- A message that ends with a diagnostic has to be ended by a line feed. -/
theorem Diagnostic.Locates.terminated_append {src text pad : Bytes} {e : CompileError}
    {pos : Position} (h : Locates src e pos text pad) (w : Bytes) :
    (w ++ e.diagnostic src).terminated = w ++ e.diagnostic src ++ [lineFeed] := by
  have hlines := h.lines
  generalize e.diagnostic src = diagnostic at hlines ⊢
  have hne : diagnostic ≠ [] := by
    rintro rfl
    have hcount : 1 = 3 := congrArg List.length hlines
    cases hcount
  refine if_neg fun hend => ?_
  rw [List.getLast?_append_of_ne_nil _ hne] at hend
  obtain ⟨before, rfl⟩ := List.getLast?_eq_some_iff.mp hend
  have hlast := getLast?_lines_concat before
  rw [hlines] at hlast
  cases hlast

/-! ## Lists of tokens -/

theorem Bytes.isLine_padRight {text : Bytes} (h : text.IsLine) (width : Nat) :
    (text.padRight width).IsLine := by
  refine h.append fun hmem => ?_
  exact absurd (List.mem_replicate.mp hmem).2 (by decide)

theorem Token.isLine_text (t : Token) : t.text.IsLine :=
  .append (.append (.append (.append (isLine_padRight t.kind.isLine_name 10) (by decide))
    (isLine_padRight (isLine_quoted t.lexeme) 14)) (by decide)) t.pos.isLine_text

namespace Dump

/-- A token in a list. -/
def tokenLine (t : Token) : Bytes := "  " ++ t.text

/-- The lines of a list of tokens: their number, each of them, and an empty line. There is a second
empty line because the text ends with a line feed. -/
def tokenLines (ts : List Token) : List Bytes :=
  ("Tokens (" ++ decimal ts.length ++ ")" : Bytes) :: ts.map tokenLine ++ [[], []]

theorem lines_flatMap_item (ts : List Token) (rest : Bytes) :
    lines (ts.flatMap (fun t => item t.text) ++ rest) = ts.map tokenLine ++ rest.lines := by
  induction ts with
  | nil => rfl
  | cons t ts ih =>
    have hline : (tokenLine t).IsLine := .append (by decide) t.isLine_text
    have hitem : item t.text = tokenLine t ++ [lineFeed] := rfl
    rw [List.flatMap_cons, hitem, List.append_assoc, List.append_assoc, List.singleton_append,
      lines_append_lineFeed hline, ih, List.map_cons, List.cons_append]

theorem lines_tokenSection (ts : List Token) : (tokenSection ts).lines = tokenLines ts := by
  have hhead : IsLine ("Tokens (" ++ decimal ts.length ++ ")") :=
    .append (.append (by decide) (isLine_digits 10 _)) (by decide)
  have hsection : tokenSection ts = "Tokens (" ++ decimal ts.length ++ ")" ++
      lineFeed :: (ts.flatMap (fun t => item t.text) ++ [lineFeed]) := by
    simp only [tokenSection, List.append_assoc]
    rfl
  rw [hsection, lines_append_lineFeed hhead, lines_flatMap_item]
  rfl

/-! ## Stages -/

/-- What stands before the words about an error. -/
def stage : CompileError → Bytes
  | .lex _ => "lex error:\n"
  | .parse _ => "parse error:\n"
  | .generate _ => "codegen error: "

/-- What is shown of a text before the stage at which it is refused: the text, and the list of its
tokens if these are no program. -/
inductive ShownBefore (src : Bytes) : CompileError → Bytes → Prop
  | lex {e : LexError} (h : Arrowlet.lex src = .error e) :
      ShownBefore src (.lex e) ("Source:\n" ++ src ++ "\n")
  | parse {e : ParseError} {ts : List Token} {listing : Bytes} (hts : Arrowlet.lex src = .ok ts)
      (h : Arrowlet.parse ts = .error e) (hlisting : listing.lines = tokenLines ts) :
      ShownBefore src (.parse e) ("Source:\n" ++ src ++ "\n" ++ listing)

variable {src : Bytes}

/-- A complaint about an error in a text ends with the diagnostic and a line feed. -/
theorem complaint_eq {e : CompileError}
    (h : ∃ pos text pad, Diagnostic.Locates src e pos text pad) :
    complaint (stage e ++ e.diagnostic src) =
      "mlcdump: " ++ stage e ++ e.diagnostic src ++ "\n" := by
  obtain ⟨pos, text, pad, hlocates⟩ := h
  rw [complaint, hlocates.terminated_append]
  simp only [List.append_assoc]
  rfl

/-- A dump of a text that cannot be compiled ends with a complaint about the error. -/
theorem ofText_of_error {e : CompileError} (h : compile src = .error e) :
    ∃ shown, ShownBefore src e shown ∧
      ofText src = ⟨.failure, shown, "mlcdump: " ++ stage e ++ e.diagnostic src ++ "\n"⟩ := by
  rcases compile_cases src with ⟨lines, hok⟩ | ⟨e', hlex, herror⟩ | ⟨ts, e', hlex, hparse, herror⟩
  · cases h.symm.trans hok
  · cases h.symm.trans herror
    refine ⟨_, .lex hlex, ?_⟩
    rw [← complaint_eq (exists_locates_lex hlex)]
    simp only [ofText, hlex]
    rfl
  · cases h.symm.trans herror
    refine ⟨_, .parse hlex hparse (lines_tokenSection ts), ?_⟩
    rw [← complaint_eq (exists_locates_parse hlex hparse)]
    simp only [ofText, hlex, hparse]
    rfl

/-- A dump of a text that compiles ends with the C text, under a line of its own. -/
theorem ofText_of_code {code : Bytes} (h : compile src = .ok code) :
    ∃ shown : Bytes, shown.getLast? = some lineFeed ∧
      ofText src = ⟨.success, shown ++ "Generated C\n" ++ code, []⟩ := by
  obtain ⟨p, ⟨ts, hlex, hparse⟩, hcode⟩ := compile_eq_ok_iff.mp h
  refine ⟨sourceSection src ++ tokenSection ts ++ treeSection p, ?_, ?_⟩
  · rw [treeSection, ← List.append_assoc]
    exact List.getLast?_concat ..
  · simp only [ofText, hlex, hparse, generate, hcode, codeSection, List.append_assoc]

end Dump

/-- A run that blames a file which was read gives the path and the diagnostic. -/
theorem Command.stderr_blame {t : FileTree} {path src : Bytes} (hread : t.read path = .ok src)
    (o : Options) (translated : List Bytes) (e : CompileError) :
    (blame o t translated path (.rejected path src e)).stderr =
      log o (translated.map ("translated " ++ ·)) ++ (path ++ ":" ++ e.diagnostic src ++ "\n") ++
        log o [verdict true] := by
  simp only [blame, hread, SourceError.message, List.append_assoc]
  rfl

open Dump Command Batch

/-- What a dump and a run of the command say about the text of a file that cannot be compiled. -/
structure Dump.Refuses (t : FileTree) (path src : Bytes) (e : CompileError) (out : Output) :
    Prop where
  status : out.status.code = 1
  /-- The stages before are shown. -/
  stdout : ShownBefore src e out.stdout
  /-- The stage is named, and the diagnostic follows. -/
  stderr : out.stderr = "mlcdump: " ++ stage e ++ e.diagnostic src ++ "\n"
  /-- The same diagnostic follows the path in every run in which no other source fails. -/
  command : ∀ m args o sources,
    (Options.initial m.processors).parse args = .ok (o, sources) →
    usageError? o sources = none → path ∈ sources →
    (∀ s ∈ sources, s ≠ path → ∃ c, compileOne t (output? o) s = .ok c) →
    ∀ outcome, Yields m args t outcome → ∃ translated : List Bytes,
      translated.Subperm sources ∧ path ∉ translated ∧
      outcome.stderr = log o (translated.map ("translated " ++ ·)) ++
        (path ++ ":" ++ e.diagnostic src ++ "\n") ++ log o [verdict true]
  /-- With one worker it does in every run that comes to this file. -/
  commandInOrder : ∀ m args o before after,
    (Options.initial m.processors).parse args = .ok (o, before ++ path :: after) →
    usageError? o (before ++ path :: after) = none → o.jobs = 1 →
    (∀ s ∈ before, ∃ c, compileOne t (output? o) s = .ok c) →
    ∀ outcome, Yields m args t outcome →
      outcome.stderr = log o (before.map ("translated " ++ ·)) ++
        (path ++ ":" ++ e.diagnostic src ++ "\n") ++ log o [verdict true]

/-- **The dump agrees with the compiler.** A dump of a file succeeds exactly if the text of the file
compiles, and then the C text is the last thing that it shows. Otherwise it fails at the stage of
the error, after showing the stages before it, with the diagnostic that the command gives. -/
theorem dump_agrees_with_compiler {t : FileTree} {path src : Bytes} (hread : t.read path = .ok src)
    (others : List Bytes) :
    ∃ out, Dump.run (path :: others) t = out ∧
      (out.status.code = 0 ↔ ∃ code, compile src = .ok code) ∧
      (∀ code, compile src = .ok code → out.stderr = [] ∧ ∃ shown : Bytes,
        shown.getLast? = some lineFeed ∧ out.stdout = shown ++ "Generated C\n" ++ code) ∧
      ∀ e, compile src = .error e → Dump.Refuses t path src e out := by
  have hrun : Dump.run (path :: others) t = ofText src := by
    simp only [Dump.run, hread]
  refine ⟨_, hrun, ?_⟩
  cases hcompile : compile src with
  | ok code =>
    obtain ⟨shown, hend, hout⟩ := ofText_of_code hcompile
    rw [hout]
    refine ⟨iff_of_true rfl ⟨code, rfl⟩, fun code' hcode => ?_, fun e he => by cases he⟩
    cases hcode
    exact ⟨rfl, shown, hend, rfl⟩
  | error e =>
    obtain ⟨shown, hshown, hout⟩ := ofText_of_error hcompile
    rw [hout]
    refine ⟨iff_of_false nofun nofun, nofun, fun e' he => ?_⟩
    cases he
    refine ⟨rfl, hshown, rfl, ?_, ?_⟩
    · intro m args o sources hparse husage hmem hothers outcome h
      have hfails := compileOne_of_error hread hcompile (output? o)
      obtain ⟨source, hsource, e', translated, he, hnamed, hcompiled, rfl⟩ :=
        h.of_failure hparse husage ⟨path, hmem, _, hfails⟩
      -- The source that is blamed is the one that fails.
      have hpath : source = path := by
        by_contra hne
        obtain ⟨c, hc⟩ := hothers source hsource hne
        cases hc.symm.trans he
      subst hpath
      cases hfails.symm.trans he
      refine ⟨translated, hnamed, fun hin => ?_, ?_⟩
      · obtain ⟨c, hc⟩ := hcompiled _ hin
        cases hc.symm.trans hfails
      · rw [conclude_eq_blame hfails, stderr_blame hread]
    · intro m args o before after hparse husage hone hbefore outcome h
      have hfails := compileOne_of_error hread hcompile (output? o)
      rw [h.eq_run hparse husage hone, run_of_failure hparse husage hbefore hfails,
        stderr_blame hread]

/-- The first file compiles, and the second is refused for its grammar by the dump, by a run that
comes to it after the first, and by two workers. -/
theorem dump_agrees_with_compiler_faulty :
    (Dump.run ["a.ml"] faultyTree).status.code = 0 ∧
    ∃ e, compile "DEF b <- ;" = .error (.parse e) ∧
      (Dump.run ["b.ml"] faultyTree).stderr = "mlcdump: parse error:\n" ++
        (CompileError.parse e).diagnostic "DEF b <- ;" ++ "\n" ∧
      (Command.run sampleMachine ["-v", "a.ml", "b.ml"] faultyTree).stderr =
        logLine "translated a.ml" ++
          ("b.ml:" ++ (CompileError.parse e).diagnostic "DEF b <- ;" ++ "\n") ++
          logLine "translation failed, no files written" ∧
      ∀ outcome, Yields sampleMachine ["-jobs=2", "b.ml", "a.ml"] faultyTree outcome →
        outcome.stderr = "b.ml:" ++ (CompileError.parse e).diagnostic "DEF b <- ;" ++ "\n" := by
  have hfirst : faultyTree.read "a.ml" = .ok "DEF a <- 1 ;" := by decide +kernel
  have hsecond : faultyTree.read "b.ml" = .ok "DEF b <- ;" := by decide +kernel
  have hcode : compile "DEF a <- 1 ;" =
      .ok (CText.header ++ "double a = 1;\n" ++ CText.footer) := by decide +kernel
  have herror : compile "DEF b <- ;" =
      .error (.parse ⟨[.number, .identifier, .lparen], ⟨.semicolon, ";", ⟨1, 10⟩⟩⟩) := by
    decide +kernel
  have hbefore := faultyTree.exists_compileOne_eq_ok
  obtain ⟨_, rfl, hstatus, -⟩ := dump_agrees_with_compiler hfirst []
  obtain ⟨_, rfl, -, -, hrefuses⟩ := dump_agrees_with_compiler hsecond []
  have hrefuses := hrefuses _ herror
  refine ⟨hstatus.mpr ⟨_, hcode⟩, _, herror, hrefuses.stderr, ?_, fun outcome h => ?_⟩
  · exact hrefuses.commandInOrder sampleMachine _ ⟨[], false, 1, true⟩ ["a.ml"] []
      (by decide +kernel) (by decide +kernel) rfl hbefore _ (yields_run ..)
  · have hothers : ∀ s ∈ (["b.ml", "a.ml"] : List Bytes), s ≠ "b.ml" →
        ∃ c, compileOne faultyTree none s = .ok c := by
      intro s hs hne
      rcases List.mem_cons.mp hs with rfl | hs
      · exact absurd rfl hne
      · exact hbefore s hs
    obtain ⟨translated, -, -, hstderr⟩ := hrefuses.command sampleMachine _ ⟨[], false, 2, false⟩
      ["b.ml", "a.ml"] (by decide +kernel) (by decide +kernel) (.head _) hothers outcome h
    rw [hstderr]
    exact List.append_nil _

end Arrowlet
