import Arrowlet.Proofs.Command.Files
import Mathlib.Data.List.Forall2

/-!
# Runs that print

A run that is asked to print compiles all of its sources first. If one cannot be read or compiled,
nothing is printed; otherwise the C texts are printed in the order of the sources, up to the first
one that standard output does not take (`Command.printAll_eq`). Either way no file is touched
(`printing_run_prints_translations`). Several workers print the same, and with the same status
(`Command.Yields.agrees`).
-/

namespace Arrowlet

open Batch

namespace Command

/-- A text is what a source is translated to: the source can be read, and what is read compiles to
the text. -/
def IsTranslation (t : FileTree) (source code : Bytes) : Prop :=
  ∃ src, t.read source = .ok src ∧ compile src = .ok code

/-- Of texts that are written after those of `taken`, standard output takes the first `k` and no
more. -/
structure Takes (m : Machine) (taken texts : List Bytes) (k : Nat) : Prop where
  /-- There are so many. -/
  le_length : k ≤ texts.length
  /-- The first ones are taken. -/
  accepts : ∀ i < k, ∀ text, texts[i]? = some text → m.accepts (taken ++ texts.take i) text
  /-- The next one is not. -/
  refuses : ∀ text, texts[k]? = some text → m.accepts (taken ++ texts.take k) text = false

section
variable {m : Machine} {args : List Bytes} {t : FileTree} {o : Options} {sources : List Bytes}

/-- Texts are printed in their order, up to the first one that is not taken. -/
theorem printAll_eq (m : Machine) (taken texts : List Bytes) :
    ∃ k, Takes m taken texts k ∧
      printAll m taken texts = (taken ++ texts.take k, decide (k = texts.length)) := by
  induction texts generalizing taken with
  | nil => exact ⟨0, ⟨Nat.le_refl 0, by simp, by simp⟩, by simp [printAll]⟩
  | cons text texts ih =>
    rw [printAll]
    split
    · next haccepts =>
      obtain ⟨k, htakes, hprint⟩ := ih (taken ++ [text])
      refine ⟨k + 1, ⟨Nat.succ_le_succ htakes.le_length, ?_, ?_⟩, ?_⟩
      · intro i hi other hother
        cases i with
        | zero =>
          cases hother
          simpa using haccepts
        | succ i => simpa using htakes.accepts i (Nat.lt_of_succ_lt_succ hi) other hother
      · intro other hother
        simpa using htakes.refuses other hother
      · simpa using hprint
    · next hrefuses =>
      refine ⟨0, ⟨Nat.zero_le _, by simp, ?_⟩, by simp⟩
      intro other hother
      cases hother
      simpa using hrefuses

/-- Printing a batch writes the texts that are taken, fails if some are not, and leaves the tree. -/
theorem print_eq (m : Machine) (batch : List CompiledSource) (log : Bytes) (t : FileTree) :
    ∃ k, Takes m [] (batch.map CompiledSource.code) k ∧
      (print m batch log t).stdout = ((batch.map CompiledSource.code).take k).flatten ∧
      (print m batch log t).status = (if k = batch.length then .success else .failure) ∧
      (print m batch log t).tree = t := by
  obtain ⟨k, htakes, hprint⟩ := printAll_eq m [] (batch.map CompiledSource.code)
  rw [List.nil_append, List.length_map] at hprint
  refine ⟨k, htakes, ?_⟩
  rw [print, hprint]
  by_cases hk : k = batch.length
  · simp [hk]
  · simp [hk]

/-- The texts of a batch are the translations of its sources, in their order. -/
theorem forall₂_isTranslation {output? : Option Bytes} {batch : List CompiledSource}
    (h : sources.map (compileOne t output?) = batch.map .ok) :
    List.Forall₂ (IsTranslation t) sources (batch.map CompiledSource.code) := by
  have hcompiled := forall₂_of_map_eq_map_ok h
  refine List.forall₂_map_right_iff.mpr (hcompiled.imp fun source c hc => ?_)
  obtain ⟨src, code, hread, hcode, rfl⟩ := compileOne_eq_ok_iff.mp hc
  exact ⟨src, hread, hcode⟩

/-- A source is compiled if it has a translation. -/
theorem exists_compileOne_iff (output? : Option Bytes) {source : Bytes} :
    (∃ c, compileOne t output? source = .ok c) ↔ ∃ code, IsTranslation t source code := by
  simp only [compileOne_eq_ok_iff]
  constructor
  · rintro ⟨_, src, code, hread, hcode, rfl⟩
    exact ⟨code, src, hread, hcode⟩
  · rintro ⟨code, src, hread, hcode⟩
    exact ⟨_, src, code, hread, hcode, rfl⟩

/-- If all sources are compiled, a run that is asked to print prints them. -/
theorem run_eq_print {batch : List CompiledSource}
    (hparse : (Options.initial m.processors).parse args = .ok (o, sources))
    (husage : usageError? o sources = none) (hstdout : o.toStdout = true)
    (h : sources.map (compileOne t (output? o)) = batch.map .ok) :
    ∃ log, run m args t = print m batch log t := by
  rw [run_eq_execute hparse husage, execute_of_batch m (compileAll_of_map h)]
  simp only [conclude, hstdout]
  exact ⟨_, rfl⟩

/-- If a source is not compiled, a run prints nothing and leaves the tree. -/
theorem run_eq_failure (hparse : (Options.initial m.processors).parse args = .ok (o, sources))
    (husage : usageError? o sources = none)
    (h : ¬ ∀ source ∈ sources, ∃ c, compileOne t (output? o) source = .ok c) :
    ∃ log, run m args t = ⟨.failure, [], log, t⟩ := by
  cases hcompile : compileAll t (output? o) sources with
  | mk batch failure =>
    cases failure with
    | none =>
      refine absurd (fun source hsource => ?_) h
      obtain ⟨c, -, hc⟩ := exists_mem_of_map_eq_map_ok (compileAll_eq_none hcompile) hsource
      exact ⟨c, hc⟩
    | some e =>
      rw [run_eq_execute hparse husage, execute_of_failure m hcompile]
      exact ⟨_, rfl⟩

end

end Command

open Command

/-- **A run that prints touches no file, and prints all or nothing as far as translating goes.** If
a source has no translation, nothing is printed and the run fails. Otherwise the translations are
printed in the order of the sources, up to the first one that standard output does not take, and the
run succeeds if it takes them all. -/
theorem printing_run_prints_translations {m : Machine} {args : List Bytes} {t : FileTree}
    {o : Options} {sources : List Bytes}
    (hparse : (Options.initial m.processors).parse args = .ok (o, sources))
    (husage : usageError? o sources = none) (hstdout : o.toStdout = true) :
    (run m args t).tree = t ∧
    ((∃ source ∈ sources, ¬ ∃ code, IsTranslation t source code) →
      (run m args t).stdout = [] ∧ (run m args t).status.code = 1) ∧
    ((∀ source ∈ sources, ∃ code, IsTranslation t source code) →
      ∃ codes k, List.Forall₂ (IsTranslation t) sources codes ∧ Takes m [] codes k ∧
        (run m args t).stdout = (codes.take k).flatten ∧
        (run m args t).status.code = if k = sources.length then 0 else 1) := by
  by_cases hall : ∀ source ∈ sources, ∃ code, IsTranslation t source code
  · obtain ⟨batch, hbatch⟩ := exists_mapM_eq_ok fun source hsource =>
      (exists_compileOne_iff (output? o)).mpr (hall source hsource)
    rw [mapM_eq_ok_iff] at hbatch
    obtain ⟨log, hrun⟩ := run_eq_print hparse husage hstdout hbatch
    obtain ⟨k, htakes, hprinted, hstatus, htree⟩ := print_eq m batch log t
    have hlength : sources.length = batch.length := by
      simpa using congrArg List.length hbatch
    rw [hrun]
    refine ⟨htree, ?_, fun _ => ⟨_, k, forall₂_isTranslation hbatch, htakes, hprinted, ?_⟩⟩
    · rintro ⟨source, hsource, hnone⟩
      exact absurd (hall source hsource) hnone
    · rw [hstatus, hlength]
      split <;> rfl
  · obtain ⟨log, hrun⟩ : ∃ log, run m args t = ⟨.failure, [], log, t⟩ := by
      refine run_eq_failure hparse husage fun hcompile => hall fun source hsource => ?_
      exact (exists_compileOne_iff (output? o)).mp (hcompile source hsource)
    rw [hrun]
    exact ⟨rfl, fun _ => ⟨rfl, rfl⟩, fun h => absurd h hall⟩

/-- A machine whose standard output takes two texts. -/
def narrowMachine : Machine := ⟨1, fun taken _ => taken.length < 2⟩

/-- Arguments that ask for the first source to be printed, then the last one and the first one
again. -/
def printingArgs : List Bytes := ["-stdout", "a.ml", "c.ml", "a.ml"]

/-- Two texts are printed, and the run fails with the third. -/
theorem printing_run_prints_translations_narrow :
    (run narrowMachine printingArgs sampleTree).tree = sampleTree ∧
    (run narrowMachine printingArgs sampleTree).status.code = 1 ∧
    ∃ codes k, List.Forall₂ (IsTranslation sampleTree) ["a.ml", "c.ml", "a.ml"] codes ∧
      Takes narrowMachine [] codes k ∧ k ≠ 3 ∧
      (run narrowMachine printingArgs sampleTree).stdout = (codes.take k).flatten := by
  have hparse : (Options.initial narrowMachine.processors).parse printingArgs =
      .ok (⟨[], true, 1, false⟩, ["a.ml", "c.ml", "a.ml"]) := by decide +kernel
  have ha : ∃ code, IsTranslation sampleTree "a.ml" code :=
    ⟨CText.header ++ "double a = 1;\n" ++ CText.footer, "DEF a <- 1 ;", by decide +kernel,
      by decide +kernel⟩
  have hc : ∃ code, IsTranslation sampleTree "c.ml" code :=
    ⟨CText.header ++ "(a + 2) * a;\n" ++ CText.footer, "(a + 2) * a ;", by decide +kernel,
      by decide +kernel⟩
  have hstatus : (run narrowMachine printingArgs sampleTree).status.code = 1 := by decide +kernel
  obtain ⟨htree, -, hprints⟩ := printing_run_prints_translations (t := sampleTree) hparse rfl rfl
  obtain ⟨codes, k, hcodes, htakes, hstdout, hcode⟩ := hprints (by simp [ha, hc])
  refine ⟨htree, hstatus, codes, k, hcodes, htakes, ?_, hstdout⟩
  rintro rfl
  rw [hstatus] at hcode
  cases hcode

end Arrowlet
