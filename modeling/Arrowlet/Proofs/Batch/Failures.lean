import Arrowlet.Proofs.Batch.Checking
import Arrowlet.Proofs.Compile.Outcomes

/-!
# Sources that fail

A source fails because it cannot be read or because its text is refused, and a text is refused for
its tokens or for its grammar, never because its tree cannot be written
(`Batch.compileOne_eq_error`). So the fault lies in the source exactly if the source was read
(`Batch.isInSource_of_compileOne`). Compiling sources one after the other ends with the first that
fails (`Batch.compileAll_of_failure`).
-/

namespace Arrowlet

namespace Batch

variable {t : FileTree} {output? : Option Bytes} {source : Bytes} {e : SourceError}

/-- A source fails when it is read or when its text is compiled. -/
theorem compileOne_eq_error (h : compileOne t output? source = .error e) :
    (∃ fault, t.read source = .error fault ∧ e = .unreadable source fault) ∨
    ∃ src fault, t.read source = .ok src ∧ compile src = .error fault ∧
      e = .rejected source src fault := by
  rw [compileOne] at h
  cases hread : t.read source with
  | error fault =>
    rw [hread] at h
    cases h
    exact .inl ⟨fault, rfl, rfl⟩
  | ok src =>
    rw [hread] at h
    change (compile src).mapError _ >>= _ = _ at h
    cases hcompile : compile src with
    | error fault =>
      rw [hcompile] at h
      cases h
      exact .inr ⟨src, fault, rfl, hcompile, rfl⟩
    | ok code =>
      rw [hcompile] at h
      cases h

/-- A source that is read and cannot be compiled is refused with its text. -/
theorem compileOne_of_error {src : Bytes} {fault : CompileError} (hread : t.read source = .ok src)
    (h : compile src = .error fault) (output? : Option Bytes) :
    compileOne t output? source = .error (.rejected source src fault) := by
  rw [compileOne, hread]
  change (compile src).mapError _ >>= _ = _
  rw [h]
  rfl

/-- The fault lies in the source exactly if it could be read. -/
theorem isInSource_of_compileOne (h : compileOne t output? source = .error e) :
    e.isInSource = (t.read source).isOk := by
  rcases compileOne_eq_error h with ⟨fault, hread, rfl⟩ | ⟨src, fault, hread, hcompile, rfl⟩
  · rw [hread]
    rfl
  · rw [hread]
    rcases compile_cases src with ⟨lines, hok⟩ | ⟨fault', -, herror⟩ | ⟨ts, fault', -, -, herror⟩
    · cases hcompile.symm.trans hok
    · cases hcompile.symm.trans herror
      rfl
    · cases hcompile.symm.trans herror
      rfl

/-- Compiling a batch ends with the first source that fails, after those before it. -/
theorem compileAll_of_failure {before : List Bytes}
    (hbefore : ∀ s ∈ before, ∃ c, compileOne t output? s = .ok c)
    (h : compileOne t output? source = .error e) (after : List Bytes) :
    ∃ batch, compileAll t output? (before ++ source :: after) = (batch, some e) ∧
      batch.map CompiledSource.source = before := by
  induction before with
  | nil => exact ⟨[], by rw [List.nil_append, compileAll, h], rfl⟩
  | cons s before ih =>
    obtain ⟨⟨c, hc⟩, hothers⟩ := List.forall_mem_cons.mp hbefore
    obtain ⟨batch, hbatch, hsources⟩ := ih hothers
    obtain ⟨src, code, -, -, rfl⟩ := compileOne_eq_ok_iff.mp hc
    exact ⟨_ :: batch, by rw [List.cons_append, compileAll, hc, hbatch],
      by rw [List.map_cons, hsources]⟩

/-- If a source fails, compiling a batch with it ends with a failure. -/
theorem exists_compileAll_eq_some {sources : List Bytes} (hsource : source ∈ sources)
    (h : compileOne t output? source = .error e) :
    ∃ batch e', compileAll t output? sources = (batch, some e') := by
  cases hcompile : compileAll t output? sources with
  | mk batch failure =>
    cases failure with
    | some e' => exact ⟨batch, e', rfl⟩
    | none => exact absurd h (ne_error_of_map_eq_map_ok (compileAll_eq_none hcompile) hsource e)

end Batch

open Batch

/-- A directory with a source that compiles and one that does not. -/
def faultyTree : FileTree where
  entries :=
    [(["w"], .directory), (["w", "a.ml"], .file "DEF a <- 1 ;" 0o644),
      (["w", "b.ml"], .file "DEF b <- ;" 0o644)]
  cwd := ["w"]
  numbers := .upFrom 0
  serial := 0

namespace faultyTree

theorem exists_compileOne_eq_ok :
    ∀ s ∈ (["a.ml"] : List Bytes), ∃ c, compileOne faultyTree none s = .ok c := by
  rw [List.forall_mem_singleton]
  exact ⟨⟨"a.ml", "a.c", CText.header ++ "double a = 1;\n" ++ CText.footer⟩, by decide +kernel⟩

/-- A number, a name or a parenthesis is missing before the semicolon. -/
theorem compileOne_rejected : compileOne faultyTree none "b.ml" =
    .error (.rejected "b.ml" "DEF b <- ;"
      (.parse ⟨[.number, .identifier, .lparen], ⟨.semicolon, ";", ⟨1, 10⟩⟩⟩)) := by
  decide +kernel

theorem compileOne_missing : compileOne faultyTree none "c.ml" =
    .error (.unreadable "c.ml" (.cannotOpen "c.ml" .noEntry)) := by
  decide +kernel

end faultyTree

end Arrowlet
