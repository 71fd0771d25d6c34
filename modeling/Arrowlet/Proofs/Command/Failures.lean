import Arrowlet.Proofs.Command.Schedule

/-!
# What a failed run is blamed on

The fault of a source that fails lies in the source exactly if it was read
(`Batch.isInSource_of_compileOne`), and this is what a run says about the source that it blames
(`Command.blame`). With several workers the run may blame any source that fails, and the log before
it may name any sources that were compiled; with one worker it is the first that fails, after those
before it (`Command.run_of_failure`).
-/

namespace Arrowlet

open Batch

namespace Command

/-- What the log says about a source that was read and refused, or could not be read. -/
def verdict (wasRead : Bool) : Bytes :=
  if wasRead then "translation failed, no files written" else "i/o failure, no files written"

/-- What a run leaves that blames a source, after the log has named the sources `translated`. -/
def blame (o : Options) (t : FileTree) (translated : List Bytes) (source : Bytes)
    (e : SourceError) : Outcome :=
  ⟨.failure, [], log o (translated.map ("translated " ++ ·)) ++ e.message ++ "\n" ++
    log o [verdict (t.read source).isOk], t⟩

section
variable {t : FileTree} {o : Options} {source : Bytes} {e : SourceError}

/-- A run that is told of a failure blames the source that failed. -/
theorem conclude_eq_blame {output? : Option Bytes} (h : compileOne t output? source = .error e)
    (m : Machine) (o : Options) (translated : List Bytes) :
    conclude m o translated (.error e) t = blame o t translated source e := by
  simp only [conclude, failureMessage, isInSource_of_compileOne h]
  rfl

/-- A run that compiles one source after the other blames the first source that fails. -/
theorem run_of_failure {m : Machine} {args before after : List Bytes}
    (hparse : (Options.initial m.processors).parse args = .ok (o, before ++ source :: after))
    (husage : usageError? o (before ++ source :: after) = none)
    (hbefore : ∀ s ∈ before, ∃ c, compileOne t (output? o) s = .ok c)
    (h : compileOne t (output? o) source = .error e) :
    run m args t = blame o t before source e := by
  obtain ⟨batch, hbatch, rfl⟩ := compileAll_of_failure hbefore h after
  rw [run_eq_execute hparse husage, execute_of_failure m hbatch, conclude_eq_blame h]

end

end Command

open Command

/-- **A source is blamed exactly if it was read.** What parses is written as C. So a text compiles
to lines between header and footer, or it is refused for its tokens or its grammar; the fault of a
source that fails lies in the source exactly if it could be read; and this is what a run says about
a source that fails, whichever it blames. With one worker this is the first one. -/
theorem failures_are_classified :
    (∀ ts p, parse ts = .ok p →
      ∃ lines, generate (some p) = .ok (CText.header ++ lines ++ CText.footer)) ∧
    (∀ src, (∃ lines, compile src = .ok (CText.header ++ lines ++ CText.footer)) ∨
      (∃ e, compile src = .error (.lex e)) ∨ ∃ e, compile src = .error (.parse e)) ∧
    (∀ t output? source e, compileOne t output? source = .error e →
      e.isInSource = (t.read source).isOk) ∧
    (∀ m args t o sources,
      (Options.initial m.processors).parse args = .ok (o, sources) →
      usageError? o sources = none →
      (∃ source ∈ sources, ∃ e, compileOne t (output? o) source = .error e) →
      Yields m args t (run m args t) ∧ ∀ outcome, Yields m args t outcome →
        ∃ source ∈ sources, ∃ e translated, compileOne t (output? o) source = .error e ∧
          translated.Subperm sources ∧
          (∀ s ∈ translated, ∃ c, compileOne t (output? o) s = .ok c) ∧
          outcome = blame o t translated source e) ∧
    ∀ m args t o before source after e,
      (Options.initial m.processors).parse args = .ok (o, before ++ source :: after) →
      usageError? o (before ++ source :: after) = none → o.jobs = 1 →
      (∀ s ∈ before, ∃ c, compileOne t (output? o) s = .ok c) →
      compileOne t (output? o) source = .error e →
      ∀ outcome, Yields m args t outcome ↔ outcome = blame o t before source e := by
  refine ⟨fun ts p => exists_generate_of_parse, fun src => ?_,
    fun t output? source e => isInSource_of_compileOne,
    fun m args t o sources hparse husage hfail => ⟨yields_run m args t, fun outcome h => ?_⟩, ?_⟩
  · rcases compile_cases src with hok | ⟨e, -, herror⟩ | ⟨ts, e, -, -, herror⟩
    · exact .inl hok
    · exact .inr (.inl ⟨e, herror⟩)
    · exact .inr (.inr ⟨e, herror⟩)
  · obtain ⟨source, hsource, e, translated, he, hnamed, hcompiled, rfl⟩ :=
      h.of_failure hparse husage hfail
    exact ⟨source, hsource, e, translated, he, hnamed, hcompiled, conclude_eq_blame he ..⟩
  · intro m args t o before source after e hparse husage hone hbefore he outcome
    rw [← run_of_failure hparse husage hbefore he]
    constructor
    · intro h
      exact h.eq_run hparse husage hone
    · rintro rfl
      exact yields_run m args t

/-- Arguments for two workers and three sources, of which only the last one compiles. -/
def twoWorkers : List Bytes := ["-v", "-jobs=2", "b.ml", "c.ml", "a.ml"]

/-- With one worker, the second source is refused for its grammar, and another one is not there.
With two workers, the one that is not there can be blamed before the one that is refused. -/
theorem failures_are_classified_faulty :
    (∃ e, compileOne faultyTree none "b.ml" = .error e ∧
      (run sampleMachine ["-v", "a.ml", "b.ml"] faultyTree).stderr =
        logLine "translated a.ml" ++ e.message ++ "\n" ++
          logLine "translation failed, no files written") ∧
    (∃ e, compileOne faultyTree none "c.ml" = .error e ∧
      (run sampleMachine ["-v", "a.ml", "c.ml"] faultyTree).stderr =
        logLine "translated a.ml" ++ e.message ++ "\n" ++
          logLine "i/o failure, no files written") ∧
    (∃ outcome, Yields sampleMachine twoWorkers faultyTree outcome ∧
      outcome.stderr ≠ (run sampleMachine twoWorkers faultyTree).stderr) ∧
    ∀ outcome, Yields sampleMachine twoWorkers faultyTree outcome →
      ∃ source ∈ (["b.ml", "c.ml", "a.ml"] : List Bytes), ∃ e translated,
        compileOne faultyTree none source = .error e ∧
        outcome = blame ⟨[], false, 2, true⟩ faultyTree translated source e := by
  have hbefore := faultyTree.exists_compileOne_eq_ok
  have hrejected := faultyTree.compileOne_rejected
  have hmissing := faultyTree.compileOne_missing
  have hparse : (Options.initial sampleMachine.processors).parse twoWorkers =
      .ok (⟨[], false, 2, true⟩, ["b.ml", "c.ml", "a.ml"]) := by decide +kernel
  have hsecond : Yields sampleMachine twoWorkers faultyTree _ :=
    .pooled (r := .error (.unreadable "c.ml" (.cannotOpen "c.ml" .noEntry))) hparse rfl
      run_secondFails rfl
  have hone := failures_are_classified.2.2.2.2 sampleMachine
  have hmany := failures_are_classified.2.2.2.1 sampleMachine twoWorkers faultyTree _ _ hparse rfl
    ⟨"b.ml", .head _, _, hrejected⟩
  refine ⟨⟨_, hrejected, ?_⟩, ⟨_, hmissing, ?_⟩, ⟨_, hsecond, ?_⟩, fun outcome h => ?_⟩
  · rw [(hone _ faultyTree ⟨[], false, 1, true⟩ ["a.ml"] "b.ml" [] _ (by decide +kernel)
      (by decide +kernel) rfl hbefore hrejected _).mp (yields_run ..)]
    rfl
  · rw [(hone _ faultyTree ⟨[], false, 1, true⟩ ["a.ml"] "c.ml" [] _ (by decide +kernel)
      (by decide +kernel) rfl hbefore hmissing _).mp (yields_run ..)]
    rfl
  · decide +kernel
  · obtain ⟨source, hsource, e, translated, he, -, -, heq⟩ := hmany.2 outcome h
    exact ⟨source, hsource, e, translated, he, heq⟩

end Arrowlet
