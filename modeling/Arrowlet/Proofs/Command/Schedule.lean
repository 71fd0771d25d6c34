import Arrowlet.Proofs.Batch.Pool
import Arrowlet.Proofs.Command.Files

/-!
# Runs on several workers

`Command.run` compiles the sources of a batch one after the other. With more than one worker they
are compiled side by side, and a run can have one of several outcomes: those that `Command.conclude`
makes of what the pool has come to (`Command.Yields`). The one of `Command.run` is always among them
(`Command.yields_run`), and with one worker there is no other (`Command.Yields.eq_run`).

All of them agree in the status, in what is printed to standard output and in the tree
(`Command.Yields.agrees`), so that what is said about these parts of `Command.run` holds for every
schedule. They differ in standard error: the log can name the sources in another order, and if
several of them fail, the one that is reported need not be the first (`Command.Yields.of_failure`).
-/

namespace Arrowlet

open Batch

/-- Two outcomes are the same but for what is printed to standard error. -/
structure Outcome.Agrees (a b : Outcome) : Prop where
  status_eq : a.status = b.status
  stdout_eq : a.stdout = b.stdout
  tree_eq : a.tree = b.tree

namespace Command

/-- An outcome that running the command can have. -/
inductive Yields (m : Machine) (args : List Bytes) (t : FileTree) : Outcome → Prop
  /-- Arguments that cannot be followed are refused. -/
  | refused (h : ∀ o sources, (Options.initial m.processors).parse args = .ok (o, sources) →
      usageError? o sources ≠ none) : Yields m args t (run m args t)
  /-- Otherwise the sources are compiled by as many workers as the options allow, in some order. -/
  | pooled {o : Options} {sources : List Bytes} {n : Nat} {p : Pool}
      {r : Except SourceError (List CompiledSource)}
      (hparse : (Options.initial m.processors).parse args = .ok (o, sources))
      (husage : usageError? o sources = none)
      (hrun : Run (compileOne t (output? o)) o.jobs.toNat n (.initial sources) p)
      (hresult : p.result? = some (r.mapError .source)) :
      Yields m args t (conclude m o p.group.translated r t)

section
variable {m : Machine} {args : List Bytes} {t : FileTree} {o : Options} {sources : List Bytes}
  {outcome : Outcome}

/-! ## What does not depend on the log -/

theorem print_agrees (m : Machine) (batch : List CompiledSource) (log log' : Bytes)
    (t : FileTree) : (print m batch log t).Agrees (print m batch log' t) := by
  cases hprint : printAll m [] (batch.map CompiledSource.code) with
  | mk taken all =>
    simp only [print, hprint]
    cases all with
    | true => exact ⟨rfl, rfl, rfl⟩
    | false => exact ⟨rfl, rfl, rfl⟩

theorem write_agrees (o : Options) (batch : List CompiledSource) (log log' : Bytes)
    (t : FileTree) : (write o batch log t).Agrees (write o batch log' t) := by
  cases hcheck : check t batch with
  | error conflict =>
    simp only [write, hcheck]
    exact ⟨rfl, rfl, rfl⟩
  | ok =>
    simp only [write, hcheck]
    cases (Batch.write t batch).failure with
    | none => exact ⟨rfl, rfl, rfl⟩
    | some e => exact ⟨rfl, rfl, rfl⟩

/-- What is done with a batch does not depend on the log. -/
theorem conclude_agrees (m : Machine) (o : Options) (translated translated' : List Bytes)
    (batch : List CompiledSource) (t : FileTree) :
    (conclude m o translated (.ok batch) t).Agrees (conclude m o translated' (.ok batch) t) := by
  cases hstdout : o.toStdout with
  | true =>
    simp only [conclude, hstdout]
    exact print_agrees ..
  | false =>
    simp only [conclude, hstdout]
    exact write_agrees ..

/-- What is done about a failure depends neither on the log nor on the failure. -/
theorem conclude_error_agrees (m : Machine) (o : Options) (translated translated' : List Bytes)
    (e e' : SourceError) (t : FileTree) :
    (conclude m o translated (.error e) t).Agrees (conclude m o translated' (.error e') t) :=
  ⟨rfl, rfl, rfl⟩

/-! ## Outcomes of a run -/

/-- A run of arguments that can be followed comes to what a pool does. -/
theorem Yields.exists_run (h : Yields m args t outcome)
    (hparse : (Options.initial m.processors).parse args = .ok (o, sources))
    (husage : usageError? o sources = none) :
    ∃ n p r, Run (compileOne t (output? o)) o.jobs.toNat n (.initial sources) p ∧
      p.result? = some (r.mapError .source) ∧ outcome = conclude m o p.group.translated r t := by
  cases h with
  | refused h => exact absurd husage (h o sources hparse)
  | @pooled o' sources' n p r hparse' _ hrun hresult =>
    cases hparse.symm.trans hparse'
    exact ⟨n, p, r, hrun, hresult, rfl⟩

/-- The result of compiling one source after the other is one that a pool can have. -/
theorem outcome_eq (compiled : List CompiledSource × Option SourceError) :
    Batch.outcome compiled = (result compiled).mapError .source := by
  obtain ⟨batch, failure⟩ := compiled
  cases failure with
  | none => rfl
  | some e => rfl

/-- Options that can be followed allow for a worker. -/
theorem one_le_jobs (h : usageError? o sources = none) : 1 ≤ o.jobs.toNat := by
  have hjobs : ¬ o.jobs < 1 := by
    intro hlt
    rw [usageError?, if_pos hlt] at h
    split at h
    · cases h
    · split at h
      · cases h
      · split at h <;> cases h
  omega

/-- A run that compiles one source after the other is one that several workers can make, too. -/
theorem yields_run (m : Machine) (args : List Bytes) (t : FileTree) :
    Yields m args t (run m args t) := by
  by_cases hfollowed : ∃ o sources, (Options.initial m.processors).parse args = .ok (o, sources) ∧
      usageError? o sources = none
  · obtain ⟨o, sources, hparse, husage⟩ := hfollowed
    obtain ⟨n, p, r, hrun, hresult⟩ :=
      (Sound.initial (compileOne t (output? o)) sources).exists_run (Nat.le_refl 1)
    obtain ⟨houtcome, hlog⟩ := hrun.eq_outcome hresult
    rw [houtcome, outcome_eq] at hresult
    rw [run_eq_execute hparse husage, execute, ← hlog]
    exact .pooled hparse husage (hrun.mono (one_le_jobs husage)) hresult
  · exact .refused fun o sources hparse husage => hfollowed ⟨o, sources, hparse, husage⟩

/-- With one worker, a run has one outcome only. -/
theorem Yields.eq_run (h : Yields m args t outcome)
    (hparse : (Options.initial m.processors).parse args = .ok (o, sources))
    (husage : usageError? o sources = none) (hone : o.jobs = 1) : outcome = run m args t := by
  obtain ⟨n, p, r, hrun, hresult, rfl⟩ := h.exists_run hparse husage
  rw [hone] at hrun
  obtain ⟨houtcome, hlog⟩ := hrun.eq_outcome hresult
  rw [outcome_eq] at houtcome
  have hr := eq_of_mapError_eq (fun _ _ => TaskError.source.inj) houtcome
  rw [run_eq_execute hparse husage, execute, hlog, hr]

/-- **What a run prints and writes does not depend on the schedule.** -/
theorem Yields.agrees (h : Yields m args t outcome) : outcome.Agrees (run m args t) := by
  cases h with
  | refused => exact ⟨rfl, rfl, rfl⟩
  | @pooled o sources n p r hparse husage hrun hresult =>
    rw [run_eq_execute hparse husage]
    rcases hrun.result_cases hresult with ⟨batch, hbatch, hr, -⟩ | ⟨source, hsource, e, he, hr⟩
    · rw [execute_of_batch m (compileAll_of_map hbatch), mapError_eq_ok_iff.mp hr]
      exact conclude_agrees ..
    · obtain ⟨e', rfl, -⟩ := mapError_eq_error_iff.mp hr
      obtain ⟨batch, e'', hfailure⟩ := exists_compileAll_eq_some hsource he
      rw [execute_of_failure m hfailure]
      exact conclude_error_agrees ..

/-- A run with a source that fails reports such a source and changes nothing. The log names sources
that were compiled, each at most as often as it was given. -/
theorem Yields.of_failure (h : Yields m args t outcome)
    (hparse : (Options.initial m.processors).parse args = .ok (o, sources))
    (husage : usageError? o sources = none)
    (hfail : ∃ source ∈ sources, ∃ e, compileOne t (output? o) source = .error e) :
    ∃ source ∈ sources, ∃ e translated, compileOne t (output? o) source = .error e ∧
      translated.Subperm sources ∧
      (∀ s ∈ translated, ∃ c, compileOne t (output? o) s = .ok c) ∧
      outcome = conclude m o translated (.error e) t := by
  obtain ⟨n, p, r, hrun, hresult, rfl⟩ := h.exists_run hparse husage
  obtain ⟨source, hsource, e, he, hr⟩ := hrun.result_of_failure hresult hfail
  obtain ⟨e', rfl, heq⟩ := mapError_eq_error_iff.mp hr
  cases heq
  exact ⟨source, hsource, e, _, he, hrun.sound.translated_subperm,
    fun s hs => hrun.sound.exists_of_mem_translated hs, rfl⟩

end

end Command

end Arrowlet
