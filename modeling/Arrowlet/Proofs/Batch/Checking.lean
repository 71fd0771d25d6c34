import Arrowlet.Batch.OutputCheck
import Arrowlet.Proofs.Batch.Writing

/-!
# Batches that may be written

What is known of a batch before it is written. All of its sources have been compiled, each from what
was read at its path (`Batch.compileAll_eq_none`), and the check has found that its outputs go to
different places, none of them that of a source (`Batch.check_eq_ok_iff`).
-/

namespace Arrowlet

namespace Batch

section
variable {t : FileTree} {output? : Option Bytes} {batch : List CompiledSource}

/-! ## Compiling -/

/-- A source is compiled from what is read at its path. -/
theorem compileOne_eq_ok_iff {source : Bytes} {c : CompiledSource} :
    compileOne t output? source = .ok c ↔
      ∃ src code, t.read source = .ok src ∧ compile src = .ok code ∧
        c = ⟨source, output?.getD (Path.defaultOutput source), code⟩ := by
  simp only [compileOne, bind_eq_ok_iff, mapError_eq_ok_iff]
  constructor
  · rintro ⟨src, hsrc, code, hcode, h⟩
    cases h
    exact ⟨src, code, hsrc, hcode, rfl⟩
  · rintro ⟨src, code, hsrc, hcode, rfl⟩
    exact ⟨src, hsrc, code, hcode, rfl⟩

/-- If no source fails, all are compiled in their order. -/
theorem compileAll_eq_none {sources : List Bytes}
    (h : compileAll t output? sources = (batch, none)) :
    sources.map (compileOne t output?) = batch.map .ok := by
  induction sources generalizing batch with
  | nil =>
    cases h
    rfl
  | cons source sources ih =>
    rw [compileAll] at h
    split at h
    · cases h
    · next c hc =>
      cases hothers : compileAll t output? sources with
      | mk others failure =>
        rw [hothers] at h
        cases h
        rw [List.map_cons, List.map_cons, hc, ih hothers]

/-- If all sources are compiled, none fails. -/
theorem compileAll_of_map {sources : List Bytes}
    (h : sources.map (compileOne t output?) = batch.map .ok) :
    compileAll t output? sources = (batch, none) := by
  induction sources generalizing batch with
  | nil =>
    obtain rfl := List.map_eq_nil_iff.mp h.symm
    rfl
  | cons source sources ih =>
    cases batch with
    | nil => cases h
    | cons c batch =>
      rw [List.map_cons, List.map_cons, List.cons.injEq] at h
      rw [compileAll, h.1, ih h.2]

/-! ## Checking -/

/-- The locations of the sources can be told if all their paths lead somewhere. -/
theorem exists_sourceLocations_iff :
    (∃ sources, sourceLocations t batch = .ok sources) ↔
      ∀ c ∈ batch, ∃ loc, t.locate c.source = .ok loc := by
  constructor
  · rintro ⟨sources, h⟩ c hc
    obtain ⟨loc, -, hloc⟩ := exists_mem_of_map_eq_map_ok (mapM_eq_ok_iff.mp h) hc
    exact ⟨loc, mapError_eq_ok_iff.mp hloc⟩
  · intro h
    refine exists_mapM_eq_ok fun c hc => ?_
    obtain ⟨loc, hloc⟩ := h c hc
    exact ⟨loc, mapError_eq_ok_iff.mpr hloc⟩

/-- The locations of the sources are those that their paths lead to. -/
theorem mem_sourceLocations_iff {sources : List Location} {loc : Location}
    (h : sourceLocations t batch = .ok sources) :
    loc ∈ sources ↔ ∃ c ∈ batch, t.locate c.source = .ok loc := by
  have hmap := mapM_eq_ok_iff.mp h
  constructor
  · intro hmem
    obtain ⟨c, hc, hloc⟩ := exists_mem_of_mem_results hmap hmem
    exact ⟨c, hc, mapError_eq_ok_iff.mp hloc⟩
  · rintro ⟨c, hc, hloc⟩
    obtain ⟨loc', hmem, hloc'⟩ := exists_mem_of_map_eq_map_ok hmap hc
    rw [mapError_eq_ok_iff, hloc] at hloc'
    cases hloc'
    exact hmem

/-- An output passes if its place is neither that of a source nor one that was seen before. -/
theorem checkFrom_cons_eq_ok_iff {sources : List Location} {seen : List (Location × Bytes)}
    {c : CompiledSource} :
    checkFrom t sources seen (c :: batch) = .ok () ↔
      ∃ loc, t.locate c.output = .ok loc ∧ loc ∉ sources ∧ loc ∉ seen.map Prod.fst ∧
        checkFrom t sources ((loc, c.source) :: seen) batch = .ok () := by
  rw [checkFrom]
  constructor
  · intro h
    split at h
    · cases h
    · next loc hloc =>
      split at h
      · cases h
      · next hsource =>
        split at h
        · cases h
        · next hseen =>
          refine ⟨loc, hloc, hsource, fun hmem => ?_, h⟩
          obtain ⟨entry, hentry, rfl⟩ := List.mem_map.mp hmem
          simpa using List.lookup_eq_none_iff.mp hseen entry hentry
  · rintro ⟨loc, hloc, hsource, hseen, h⟩
    have hnone : seen.lookup loc = none := by
      refine List.lookup_eq_none_iff.mpr fun entry hentry => bne_iff_ne.mpr fun heq => hseen ?_
      exact List.mem_map.mpr ⟨entry, hentry, heq.symm⟩
    simpa only [hloc, hsource, hnone, if_false] using h

/-- Outputs pass if their places are different from each other, from those of the sources and from
those seen before. -/
theorem checkFrom_eq_ok_iff {sources : List Location} {seen : List (Location × Bytes)} :
    checkFrom t sources seen batch = .ok () ↔
      (∀ c ∈ batch, ∃ loc, t.locate c.output = .ok loc ∧ loc ∉ sources ∧
        loc ∉ seen.map Prod.fst) ∧ Distinct t batch := by
  induction batch generalizing seen with
  | nil => simp [checkFrom, Distinct]
  | cons c batch ih =>
    rw [checkFrom_cons_eq_ok_iff, Distinct, List.pairwise_cons]
    constructor
    · rintro ⟨loc, hloc, hsource, hseen, hrest⟩
      obtain ⟨hall, hdistinct⟩ := ih.mp hrest
      refine ⟨?_, ?_, hdistinct⟩
      · rintro d (_ | ⟨_, hd⟩)
        · exact ⟨loc, hloc, hsource, hseen⟩
        · obtain ⟨loc', hloc', hsource', hseen'⟩ := hall d hd
          exact ⟨loc', hloc', hsource', fun hmem => hseen' (.tail _ hmem)⟩
      · intro d hd heq
        obtain ⟨loc', hloc', -, hseen'⟩ := hall d hd
        rw [hloc, hloc'] at heq
        cases heq
        exact hseen' (.head _)
    · rintro ⟨hall, hne, hdistinct⟩
      obtain ⟨loc, hloc, hsource, hseen⟩ := hall c (.head _)
      refine ⟨loc, hloc, hsource, hseen, ih.mpr ⟨fun d hd => ?_, hdistinct⟩⟩
      obtain ⟨loc', hloc', hsource', hseen'⟩ := hall d (.tail _ hd)
      refine ⟨loc', hloc', hsource', ?_⟩
      rintro (_ | ⟨_, hmem⟩)
      · exact hne d hd (hloc.trans hloc'.symm)
      · exact hseen' hmem

/-- **The check accepts a batch exactly if its outputs get in nobody's way**: all paths lead
somewhere, the outputs to different places, and none to the place of a source. -/
theorem check_eq_ok_iff :
    check t batch = .ok () ↔
      (∀ c ∈ batch, ∃ loc, t.locate c.source = .ok loc) ∧
      (∀ c ∈ batch, ∃ loc, t.locate c.output = .ok loc) ∧ Distinct t batch ∧
      ∀ c ∈ batch, ∀ d ∈ batch, t.locate c.output ≠ t.locate d.source := by
  rw [check, bind_eq_ok_iff, ← exists_sourceLocations_iff]
  constructor
  · rintro ⟨sources, hsources, hcheck⟩
    obtain ⟨hall, hdistinct⟩ := checkFrom_eq_ok_iff.mp hcheck
    refine ⟨⟨sources, hsources⟩, fun c hc => (hall c hc).imp fun _ h => h.1, hdistinct, ?_⟩
    intro c hc d hd heq
    obtain ⟨loc, hloc, hnotMem, -⟩ := hall c hc
    exact hnotMem ((mem_sourceLocations_iff hsources).mpr ⟨d, hd, heq ▸ hloc⟩)
  · rintro ⟨⟨sources, hsources⟩, houtput, hdistinct, hne⟩
    refine ⟨sources, hsources, checkFrom_eq_ok_iff.mpr ⟨fun c hc => ?_, hdistinct⟩⟩
    obtain ⟨loc, hloc⟩ := houtput c hc
    refine ⟨loc, hloc, fun hmem => ?_, by simp⟩
    obtain ⟨d, hd, hloc'⟩ := (mem_sourceLocations_iff hsources).mp hmem
    exact hne c hc d hd (hloc.trans hloc'.symm)

end

end Batch

end Arrowlet
