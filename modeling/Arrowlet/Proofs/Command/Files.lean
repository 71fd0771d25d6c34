import Arrowlet.Command
import Arrowlet.Proofs.Batch.Checking

/-!
# What a run does to the files

A run changes files only if it gets as far as writing a batch (`Command.Writes`): all sources were
compiled, and their outputs were found to get in nobody's way. The outputs of such a batch never go
to a place of its temporary files (`Command.Writes.apart`), so that all is known about the tree that
the run leaves (`Command.Writes.inPlace`).

A run that succeeds writes the translations of its sources (`successful_run_writes_translations`),
no run touches a source (`run_keeps_sources`), and one that fails can leave some outputs, but
nothing else (`failed_run_leaves_writable`). All this is about the status and the tree, which
several workers leave as one does (`Command.Yields.agrees`).
-/

namespace Arrowlet

open Batch FileTree

/-! ## Where outputs go by default -/

/-- By default, an output ends in the letter `c`. -/
theorem Path.exists_defaultOutput_eq (source : Bytes) :
    ∃ path, defaultOutput source = path ++ [0x63] := by
  have hdefault : ∃ kept, defaultOutput source = kept ++ ".c" := by
    rw [defaultOutput, replaceExtension]
    split
    · exact ⟨source, rfl⟩
    · exact ⟨_, rfl⟩
  obtain ⟨kept, hkept⟩ := hdefault
  exact ⟨kept ++ [Bytes.dot], by rw [hkept, List.append_assoc]; rfl⟩

/-- By default, an output has a name that ends in the letter `c`. -/
theorem FileTree.exists_locate_defaultOutput_eq {t : FileTree} {source : Bytes} {loc : Location}
    (h : t.locate (Path.defaultOutput source) = .ok loc) :
    ∃ dir name, loc = dir ++ [name ++ [0x63]] := by
  obtain ⟨path, hpath⟩ := Path.exists_defaultOutput_eq source
  rw [hpath, locate] at h
  split at h
  · cases h
    exact Location.follow_concat (by decide) (by decide) path
  · split at h
    · cases h
      exact Location.follow_concat (by decide) (by decide) path
    · cases h

namespace Command

/-- The path that the output of a source goes to. -/
def outputPath (o : Options) (source : Bytes) : Bytes :=
  if o.output = [] then Path.defaultOutput source else o.output

theorem outputPath_eq (o : Options) (source : Bytes) :
    outputPath o source = (output? o).getD (Path.defaultOutput source) := by
  rw [outputPath, output?]
  split <;> rfl

/-- A run gets to writing a batch: the arguments ask for `sources` to be written as `o` says, and
`batch` is what they are compiled to. -/
structure Writes (m : Machine) (args : List Bytes) (t : FileTree) (o : Options)
    (sources : List Bytes) (batch : List CompiledSource) : Prop where
  /-- The arguments can be read. -/
  parse_eq : (Options.initial m.processors).parse args = .ok (o, sources)
  /-- They can be followed together. -/
  usage_eq : usageError? o sources = none
  /-- The outputs are not to be printed. -/
  toStdout_eq : o.toStdout = false
  /-- All sources can be compiled. -/
  compile_eq : compileAll t (output? o) sources = (batch, none)
  /-- The outputs get in nobody's way. -/
  check_eq : check t batch = .ok ()

section
variable {m : Machine} {args : List Bytes} {t : FileTree} {o : Options} {sources : List Bytes}
  {batch : List CompiledSource}

/-! ## From a run to its parts -/

/-- Arguments that can be followed are followed. -/
theorem run_eq_execute (hparse : (Options.initial m.processors).parse args = .ok (o, sources))
    (husage : usageError? o sources = none) : run m args t = execute m o sources t := by
  simp only [run, hparse, husage]

/-- If all sources can be compiled, what they are compiled to is printed or written. -/
theorem execute_of_batch (m : Machine) (h : compileAll t (output? o) sources = (batch, none)) :
    execute m o sources t = conclude m o (batch.map CompiledSource.source) (.ok batch) t := by
  rw [execute, h]
  rfl

/-- If a source cannot be compiled, this is reported. -/
theorem execute_of_failure {e : SourceError} (m : Machine)
    (h : compileAll t (output? o) sources = (batch, some e)) :
    execute m o sources t = conclude m o (batch.map CompiledSource.source) (.error e) t := by
  rw [execute, h]
  rfl

/-- A batch is written unless it is to be printed. -/
theorem exists_conclude_eq_write (m : Machine) (translated : List Bytes)
    (batch : List CompiledSource) (t : FileTree) (h : o.toStdout = false) :
    ∃ log, conclude m o translated (.ok batch) t = write o batch log t := by
  simp only [conclude, h]
  exact ⟨_, rfl⟩

/-! ## The two kinds of runs -/

/-- A run that gets to writing leaves the tree that writing leaves, and fails if writing fails. -/
theorem Writes.run_eq (h : Writes m args t o sources batch) :
    (run m args t).tree = (Batch.write t batch).tree ∧ (run m args t).stdout = [] ∧
      ((run m args t).status = .success ↔ (Batch.write t batch).failure = none) := by
  obtain ⟨log, hwrite⟩ := exists_conclude_eq_write m (batch.map CompiledSource.source) batch t
    h.toStdout_eq
  rw [run_eq_execute h.parse_eq h.usage_eq, execute_of_batch m h.compile_eq, hwrite, write,
    h.check_eq]
  dsimp only
  split
  · next hfailure => simp [hfailure]
  · next hfailure => simp [hfailure]

/-- A run that does not get to writing leaves the tree as it is. If it succeeds, it has printed the
outputs. -/
theorem run_cases (m : Machine) (args : List Bytes) (t : FileTree) :
    (∃ o sources batch, Writes m args t o sources batch) ∨
    ((run m args t).tree = t ∧ ((run m args t).status = .success →
      ∃ o sources, (Options.initial m.processors).parse args = .ok (o, sources) ∧
        usageError? o sources = none ∧ o.toStdout = true)) := by
  rw [run]
  split
  · exact .inr ⟨rfl, nofun⟩
  · next o sources hparse =>
    split
    · exact .inr ⟨rfl, nofun⟩
    · next husage =>
      cases hcompile : compileAll t (output? o) sources with
      | mk batch failure =>
        cases failure with
        | some e =>
          rw [execute_of_failure m hcompile]
          exact .inr ⟨rfl, nofun⟩
        | none =>
          rw [execute_of_batch m hcompile, conclude]
          split
          · next hstdout =>
            refine .inr ⟨?_, fun _ => ⟨o, sources, hparse, husage, hstdout⟩⟩
            rw [print]
            split <;> rfl
          · next hstdout =>
            cases hcheck : check t batch with
            | error conflict =>
              rw [write, hcheck]
              exact .inr ⟨rfl, nofun⟩
            | ok =>
              have hstdout' : o.toStdout = false := by simpa using hstdout
              exact .inl ⟨o, sources, batch, hparse, husage, hstdout', hcompile, hcheck⟩

/-! ## The batch that is written -/

/-- The batch holds what every source is compiled to. -/
theorem Writes.exists_mem (h : Writes m args t o sources batch) {source : Bytes}
    (hsource : source ∈ sources) : ∃ src code, t.read source = .ok src ∧ compile src = .ok code ∧
      ⟨source, outputPath o source, code⟩ ∈ batch := by
  obtain ⟨c, hc, hcompile⟩ := exists_mem_of_map_eq_map_ok (compileAll_eq_none h.compile_eq) hsource
  obtain ⟨src, code, hread, hcode, rfl⟩ := compileOne_eq_ok_iff.mp hcompile
  exact ⟨src, code, hread, hcode, outputPath_eq o source ▸ hc⟩

/-- The batch holds nothing else. -/
theorem Writes.source_mem (h : Writes m args t o sources batch) {c : CompiledSource}
    (hc : c ∈ batch) : c.source ∈ sources ∧ c.output = outputPath o c.source := by
  obtain ⟨source, hsource, hcompile⟩ :=
    exists_mem_of_mem_results (compileAll_eq_none h.compile_eq) hc
  obtain ⟨src, code, -, -, rfl⟩ := compileOne_eq_ok_iff.mp hcompile
  exact ⟨hsource, (outputPath_eq o source).symm⟩

/-- No output goes to the place of a temporary file. The name of a temporary file ends in a digit,
unlike that of an output by default; and it is longer than the name of the output that it is for. -/
theorem Writes.apart (h : Writes m args t o sources batch) : Apart t batch := by
  intro c hc temp htemp hloc
  obtain ⟨d, hd, loc', number, hloc', rfl⟩ := exists_temp_eq htemp
  rw [(h.source_mem hc).2, outputPath] at hloc
  rw [(h.source_mem hd).2, outputPath] at hloc'
  by_cases houtput : o.output = []
  · rw [if_pos houtput] at hloc
    obtain ⟨dir, name, heq⟩ := exists_locate_defaultOutput_eq hloc
    have hname : [name ++ [0x63]] = [tempName loc'.base number] :=
      (List.append_inj' heq.symm rfl).2
    have hlast : (tempName loc'.base number).getLast? = some 0x63 := by
      rw [← List.singleton_inj.mp hname, List.getLast?_concat]
    exact absurd (isDigit_of_getLast?_tempName hlast) (by decide)
  · rw [if_neg houtput] at hloc hloc'
    exact ne_concat_tempName loc' number (Except.ok.inj (hloc'.symm.trans hloc))

/-- The outputs that are reported as written are in place, and nothing else has changed. -/
theorem Writes.inPlace (h : Writes m args t o sources batch) :
    InPlace t (Batch.write t batch).written (run m args t).tree := by
  rw [h.run_eq.1]
  exact write_inPlace h.apart (check_eq_ok_iff.mp h.check_eq).2.2.1

/-- The run succeeds if all outputs are written. -/
theorem Writes.status_eq_success_iff (h : Writes m args t o sources batch) :
    (run m args t).status = .success ↔ (Batch.write t batch).written = batch :=
  h.run_eq.2.2.trans (write_written_isPrefix h.apart).2

/-- What stands in the place of a source stays, since no output goes there. -/
theorem Writes.lookup_source (h : Writes m args t o sources batch) {source : Bytes} {loc : Location}
    (hsource : source ∈ sources) (hloc : t.locate source = .ok loc) :
    (run m args t).tree.lookup loc = t.lookup loc := by
  obtain ⟨src, code, -, -, hmem⟩ := h.exists_mem hsource
  refine h.inPlace.lookup_other loc fun c hc heq => ?_
  have hbatch : c ∈ batch := (write_written_isPrefix h.apart).1.subset hc
  exact (check_eq_ok_iff.mp h.check_eq).2.2.2 c hbatch _ hmem (heq.trans hloc.symm)

/-- Options that can be followed come with a source. -/
theorem ne_nil_of_usageError?_eq_none (h : usageError? o sources = none) : sources ≠ [] := by
  rintro rfl
  cases h

/-- What a run does that writes the translations of sources. -/
structure Translates (t : FileTree) (o : Options) (sources : List Bytes) (outcome : Outcome) :
    Prop where
  /-- Nothing is printed. -/
  stdout_eq : outcome.stdout = []
  /-- The working directory is the same. -/
  cwd_eq : outcome.tree.cwd = t.cwd
  /-- Where the output of a source goes, there is the translation of what was read from it. -/
  lookup_output : ∀ source ∈ sources, ∃ src code loc, t.read source = .ok src ∧
    compile src = .ok code ∧ t.locate (outputPath o source) = .ok loc ∧
    outcome.tree.lookup loc = some (.file code 0o644)
  /-- All else is as before. -/
  lookup_other : ∀ loc, (∀ source ∈ sources, t.locate (outputPath o source) ≠ .ok loc) →
    outcome.tree.lookup loc = t.lookup loc
  /-- The sources are as before. -/
  lookup_source : ∀ source ∈ sources, ∀ loc, t.resolve source = .ok loc →
    outcome.tree.lookup loc = t.lookup loc

end

end Command

open Command

section
variable {m : Machine} {args : List Bytes} {t : FileTree}

theorem ExitStatus.code_eq_zero_iff {status : ExitStatus} :
    status.code = 0 ↔ status = .success := by
  cases status <;> simp [code]

/-! ## Runs that succeed -/

/-- **A run that succeeds writes the translations of its sources, and nothing else.** -/
theorem successful_run_writes_translations (hrun : (run m args t).status.code = 0) :
    ∃ o sources, (Options.initial m.processors).parse args = .ok (o, sources) ∧ sources ≠ [] ∧
      (o.toStdout = false → Translates t o sources (run m args t)) := by
  have hstatus := ExitStatus.code_eq_zero_iff.mp hrun
  rcases run_cases m args t with ⟨o, sources, batch, h⟩ | ⟨-, hprinted⟩
  · refine ⟨o, sources, h.parse_eq, ne_nil_of_usageError?_eq_none h.usage_eq, fun _ => ?_⟩
    have hplace : InPlace t batch (run m args t).tree := by
      rw [← h.status_eq_success_iff.mp hstatus]
      exact h.inPlace
    refine ⟨h.run_eq.2.1, hplace.cwd_eq, ?_, ?_, ?_⟩
    · intro source hsource
      obtain ⟨src, code, hread, hcode, hmem⟩ := h.exists_mem hsource
      obtain ⟨loc, hloc, hlookup⟩ := hplace.lookup_output _ hmem
      exact ⟨src, code, loc, hread, hcode, hloc, hlookup⟩
    · intro loc hloc
      refine hplace.lookup_other loc fun c hc => ?_
      obtain ⟨hsource, houtput⟩ := h.source_mem hc
      rw [houtput]
      exact hloc c.source hsource
    · intro source hsource loc hloc
      exact h.lookup_source hsource (locate_of_resolve hloc)
  · obtain ⟨o, sources, hparse, husage, hstdout⟩ := hprinted hstatus
    refine ⟨o, sources, hparse, ne_nil_of_usageError?_eq_none husage, fun hfalse => ?_⟩
    rw [hstdout] at hfalse
    cases hfalse

/-- A directory with three sources, where a directory has the name of the second one's output. -/
def sampleTree : FileTree where
  entries :=
    [(["w"], .directory), (["w", "a.ml"], .file "DEF a <- 1 ;" 0o600),
      (["w", "b.ml"], .file "DEF b <- 2 ;" 0o644), (["w", "b.c"], .directory),
      (["w", "c.ml"], .file "(a + 2) * a ;" 0o644)]
  cwd := ["w"]
  numbers := .upFrom 0
  serial := 0

/-- A machine whose standard output takes everything. -/
def sampleMachine : Machine := ⟨1, fun _ _ => true⟩

/-- Arguments that name the first and the last source. -/
def freeArgs : List Bytes := ["-jobs=2", "a.ml", "../w//./c.ml"]

/-- Both sources are translated, also the one whose path makes detours. -/
theorem successful_run_writes_translations_pair :
    (run sampleMachine freeArgs sampleTree).status.code = 0 ∧
    Translates sampleTree ⟨[], false, 2, false⟩ ["a.ml", "../w//./c.ml"]
      (run sampleMachine freeArgs sampleTree) := by
  have hrun : (run sampleMachine freeArgs sampleTree).status.code = 0 := by decide +kernel
  have hparse : (Options.initial sampleMachine.processors).parse freeArgs =
      .ok (⟨[], false, 2, false⟩, ["a.ml", "../w//./c.ml"]) := by decide +kernel
  obtain ⟨o, sources, hparse', -, htranslates⟩ := successful_run_writes_translations hrun
  rw [hparse] at hparse'
  cases hparse'
  exact ⟨hrun, htranslates rfl⟩

/-! ## Sources -/

/-- **No run touches a source**, however it ends and however the paths are spelled: the file that is
read has the same content and the same permission bits afterwards. -/
theorem run_keeps_sources {o : Options} {sources : List Bytes} {source data : Bytes}
    (hparse : (Options.initial m.processors).parse args = .ok (o, sources))
    (hsource : source ∈ sources) (hread : t.read source = .ok data) :
    ∃ loc mode, t.resolve source = .ok loc ∧ t.lookup loc = some (.file data mode) ∧
      (run m args t).tree.lookup loc = some (.file data mode) := by
  obtain ⟨loc, mode, hloc, hfile⟩ := read_eq_ok_iff.mp hread
  refine ⟨loc, mode, hloc, hfile, ?_⟩
  rcases run_cases m args t with ⟨o', sources', batch, h⟩ | ⟨htree, -⟩
  · have hsame := h.parse_eq
    rw [hparse] at hsame
    cases hsame
    rw [h.lookup_source hsource (locate_of_resolve hloc), hfile]
  · rw [htree, hfile]

/-- Arguments that name the first two sources. -/
def blockedArgs : List Bytes := ["a.ml", "../w//./b.ml"]

/-- The second source stays as it is when its output cannot be put in place. -/
theorem run_keeps_sources_blocked :
    (run sampleMachine blockedArgs sampleTree).status = .failure ∧
    ∃ loc mode, sampleTree.resolve "../w//./b.ml" = .ok loc ∧
      sampleTree.lookup loc = some (.file "DEF b <- 2 ;" mode) ∧
      (run sampleMachine blockedArgs sampleTree).tree.lookup loc =
        some (.file "DEF b <- 2 ;" mode) := by
  have hparse : (Options.initial sampleMachine.processors).parse blockedArgs =
      .ok (⟨[], false, 1, false⟩, blockedArgs) := by decide +kernel
  have hread : sampleTree.read "../w//./b.ml" = .ok "DEF b <- 2 ;" := by decide +kernel
  exact ⟨by decide +kernel, run_keeps_sources hparse (.tail _ (.head _)) hread⟩

/-! ## Runs that fail -/

/-- **A run that fails leaves the outputs that could be written before the one that could not.** If
no output after the first has its place taken by a directory, there are none, and the tree is as
before. The working directory has to consist of names, as one that the system reports does. -/
theorem failed_run_leaves_writable (hclean : t.cwd.IsClean)
    (hrun : (run m args t).status.code ≠ 0) :
    (∀ o sources batch, Writes m args t o sources batch →
      InPlace t (writable t batch) (run m args t).tree ∧ writable t batch ≠ batch) ∧
    ((∀ o sources batch, Writes m args t o sources batch →
        ∀ c ∈ batch.tail, t.leadsToDirectory c.output = false) →
      ∀ loc, (run m args t).tree.lookup loc = t.lookup loc) := by
  have hleft : ∀ o sources batch, Writes m args t o sources batch →
      InPlace t (writable t batch) (run m args t).tree ∧ writable t batch ≠ batch := by
    intro o sources batch h
    rw [← write_written hclean h.apart]
    exact ⟨h.inPlace, fun hall =>
      hrun (ExitStatus.code_eq_zero_iff.mpr (h.status_eq_success_iff.mpr hall))⟩
  refine ⟨hleft, fun htail loc => ?_⟩
  rcases run_cases m args t with ⟨o, sources, batch, h⟩ | ⟨htree, -⟩
  · obtain ⟨hplace, hne⟩ := hleft o sources batch h
    rw [writable_eq_nil hne (htail o sources batch h)] at hplace
    exact hplace.lookup_other loc (by simp)
  · rw [htree]

/-- What the first two sources are compiled to. -/
def blockedBatch : List CompiledSource := (compileAll sampleTree none blockedArgs).1

/-- The first output is left, since it is the second one's place that is taken by a directory. -/
theorem failed_run_leaves_writable_blocked :
    sampleTree.cwd.IsClean ∧ (run sampleMachine blockedArgs sampleTree).status.code ≠ 0 ∧
    InPlace sampleTree (blockedBatch.take 1) (run sampleMachine blockedArgs sampleTree).tree := by
  have hclean : sampleTree.cwd.IsClean := by
    simp only [sampleTree, Location.IsClean, List.forall_mem_singleton, Location.IsName]
    decide
  have hrun : (run sampleMachine blockedArgs sampleTree).status.code ≠ 0 := by decide +kernel
  have hwrites : Writes sampleMachine blockedArgs sampleTree ⟨[], false, 1, false⟩ blockedArgs
      blockedBatch := by
    refine ⟨?_, ?_, rfl, Prod.ext rfl ?_, ?_⟩ <;> decide +kernel
  have hwritable : writable sampleTree blockedBatch = blockedBatch.take 1 := by decide +kernel
  rw [← hwritable]
  exact ⟨hclean, hrun, ((failed_run_leaves_writable hclean hrun).1 _ _ _ hwrites).1⟩

/-- A run that fails can leave an output where there was nothing. -/
theorem failed_run_leaves_output :
    (run sampleMachine blockedArgs sampleTree).status.code = 1 ∧
    sampleTree.lookup ["w", "a.c"] = none ∧
    ∃ code, compile "DEF a <- 1 ;" = .ok code ∧
      (run sampleMachine blockedArgs sampleTree).tree.lookup ["w", "a.c"] =
        some (.file code 0o644) := by
  refine ⟨by decide +kernel, by decide +kernel, (compile "DEF a <- 1 ;").toOption.getD [], ?_, ?_⟩
  · decide +kernel
  · decide +kernel

end

end Arrowlet
