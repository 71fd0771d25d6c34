import Arrowlet.Proofs.Batch.Checking

/-!
# The conflict that a check reports

The outputs of a batch are looked at one after the other. One that leads to the place of a source is
reported as such, whether the source is its own, an earlier or a later one; one that leads to the
place of an earlier output is reported together with the source of that. The check stops there
(`Batch.checkFrom_eq_error`), so that it reports the first output that gets in the way of anything
(`check_reports_first_clash`). There is only one earlier output that it can get in the way of, since
those before it have passed.
-/

namespace Arrowlet

namespace Batch

/-- An output leads to the place of a source of the batch. -/
def Overwrites (t : FileTree) (batch : List CompiledSource) (c : CompiledSource) : Prop :=
  ∃ d ∈ batch, t.locate c.output = t.locate d.source

/-- The output with the index `j` leads to the place of the earlier one with the index `i`. -/
def Repeats (t : FileTree) (batch : List CompiledSource) (i j : Nat) : Prop :=
  i < j ∧ ∃ c d, batch[i]? = some c ∧ batch[j]? = some d ∧ t.locate c.output = t.locate d.output

/-- The output with the index `j` gets in the way of a source or of an earlier output. -/
def Clashes (t : FileTree) (batch : List CompiledSource) (j : Nat) : Prop :=
  (∃ c, batch[j]? = some c ∧ Overwrites t batch c) ∨ ∃ i, Repeats t batch i j

section
variable {t : FileTree} {batch before after : List CompiledSource} {c : CompiledSource}
  {sources : List Location} {seen : List (Location × Bytes)} {conflict : OutputConflict}

/-- The check stops at an output whose place is that of a source, or was seen before. -/
theorem checkFrom_eq_error (houtput : ∀ c ∈ batch, ∃ loc, t.locate c.output = .ok loc)
    (h : checkFrom t sources seen batch = .error conflict) :
    ∃ before c after loc, batch = before ++ c :: after ∧
      checkFrom t sources seen before = .ok () ∧ t.locate c.output = .ok loc ∧
      (loc ∈ sources ∧ conflict = .overwrites c.output c.source ∨
        loc ∉ sources ∧ ∃ first, conflict = .shared first c.source c.output ∧
          ((loc, first) ∈ seen ∨
            ∃ d ∈ before, t.locate d.output = .ok loc ∧ d.source = first)) := by
  induction batch generalizing seen with
  | nil => cases h
  | cons c batch ih =>
    obtain ⟨⟨loc, hloc⟩, hothers⟩ := List.forall_mem_cons.mp houtput
    rw [checkFrom, hloc] at h
    dsimp only at h
    split at h
    · next hsource =>
      cases h
      exact ⟨[], c, batch, loc, rfl, rfl, hloc, .inl ⟨hsource, rfl⟩⟩
    · next hsource =>
      split at h
      · next first hseen =>
        cases h
        obtain ⟨_, _, rfl, -⟩ := List.lookup_eq_some_iff.mp hseen
        exact ⟨[], c, batch, loc, rfl, rfl, hloc, .inr ⟨hsource, first, rfl, .inl (by simp)⟩⟩
      · next hseen =>
        obtain ⟨before, c', after, loc', rfl, hbefore, hloc', hclash⟩ := ih hothers h
        refine ⟨c :: before, c', after, loc', rfl, ?_, hloc', hclash.imp_right ?_⟩
        · rw [checkFrom, hloc]
          dsimp only
          rw [if_neg hsource, hseen]
          exact hbefore
        · -- What the rest of the check has seen is `c` and what was seen before.
          rintro ⟨hsource', first, rfl, (_ | ⟨_, hfirst⟩) | ⟨d, hd, hfirst⟩⟩
          · exact ⟨hsource', _, rfl, .inr ⟨c, .head _, hloc, rfl⟩⟩
          · exact ⟨hsource', first, rfl, .inl hfirst⟩
          · exact ⟨hsource', first, rfl, .inr ⟨d, .tail _ hd, hfirst⟩⟩

/-- Different outputs of a batch whose outputs go to different places go to different places. -/
theorem Distinct.eq_of_locate_eq (h : Distinct t batch) {i j : Nat} {c d : CompiledSource}
    (hi : batch[i]? = some c) (hj : batch[j]? = some d)
    (heq : t.locate c.output = t.locate d.output) : i = j := by
  obtain ⟨hi', rfl⟩ := List.getElem?_eq_some_iff.mp hi
  obtain ⟨hj', rfl⟩ := List.getElem?_eq_some_iff.mp hj
  have hpairs := List.pairwise_iff_getElem.mp h
  rcases Nat.lt_trichotomy i j with hlt | rfl | hlt
  · exact absurd heq (hpairs i j hi' hj' hlt)
  · rfl
  · exact absurd heq.symm (hpairs j i hj' hi' hlt)

/-- Outputs that lead to the places of sources are told by the locations of the sources. -/
theorem overwrites_iff {loc : Location} (hsources : sourceLocations t batch = .ok sources)
    (hloc : t.locate c.output = .ok loc) : Overwrites t batch c ↔ loc ∈ sources := by
  rw [mem_sourceLocations_iff hsources, Overwrites, hloc]
  exact exists_congr fun d => and_congr_right fun _ => eq_comm

/-- Outputs at the beginning that go to different places, and to none of a source, do not clash. -/
theorem not_clashes (hdistinct : Distinct t before)
    (hsource : ∀ d ∈ before, ¬ Overwrites t (before ++ after) d) {i : Nat}
    (hi : i < before.length) : ¬ Clashes t (before ++ after) i := by
  have hget : ∀ i < before.length, (before ++ after)[i]? = before[i]? := fun i hi =>
    List.getElem?_append_left hi
  rintro (⟨d, hd, hover⟩ | ⟨i', hlt, c, d, hc, hd, heq⟩)
  · rw [hget i hi] at hd
    exact hsource d (List.mem_of_getElem? hd) hover
  · rw [hget i hi] at hd
    rw [hget i' (Nat.lt_trans hlt hi)] at hc
    exact Nat.ne_of_lt hlt (hdistinct.eq_of_locate_eq hc hd heq)

/-- If the outputs before one go to different places, it repeats at most one of them. -/
theorem repeats_length_iff (hdistinct : Distinct t before) {i i' : Nat} {d : CompiledSource}
    (hd : before[i]? = some d) (heq : t.locate d.output = t.locate c.output) :
    Repeats t (before ++ c :: after) i' before.length ↔ i' = i := by
  have hi := (List.getElem?_eq_some_iff.mp hd).1
  have hc : (before ++ c :: after)[before.length]? = some c := by simp
  constructor
  · rintro ⟨hlt, d', c', hd', hc', heq'⟩
    rw [List.getElem?_append_left hlt] at hd'
    cases hc.symm.trans hc'
    exact hdistinct.eq_of_locate_eq hd' hd (heq'.trans heq.symm)
  · rintro rfl
    exact ⟨hi, d, c, (List.getElem?_append_left hi).trans hd, hc, heq⟩

end

end Batch

open Batch FileTree

/-- **A check accepts the batches whose outputs get in nobody's way, and reports the first clash of
the others.** If all paths lead somewhere, a batch passes exactly if its outputs go to different
places, none of them that of a source. Otherwise the first output that clashes is reported, as one
that overwrites a source if it does, and else together with the source of the one earlier output
that it repeats. The message says which, and names all that the report does. -/
theorem check_reports_first_clash {t : FileTree} {batch : List CompiledSource}
    (hlocated : ∀ c ∈ batch,
      (∃ loc, t.locate c.source = .ok loc) ∧ ∃ loc, t.locate c.output = .ok loc) :
    (check t batch = .ok () ↔ Distinct t batch ∧ ∀ c ∈ batch, ¬ Overwrites t batch c) ∧
    ∀ conflict, check t batch = .error conflict →
      ∃ j c, batch[j]? = some c ∧ Clashes t batch j ∧ (∀ i < j, ¬ Clashes t batch i) ∧
        (Overwrites t batch c → conflict = .overwrites c.output c.source ∧ conflict.message =
          "output " ++ c.output ++ " for " ++ c.source ++ " would overwrite a source file") ∧
        (¬ Overwrites t batch c → ∃ i d, batch[i]? = some d ∧
          (∀ i', Repeats t batch i' j ↔ i' = i) ∧
          conflict = .shared d.source c.source c.output ∧ conflict.message =
            d.source ++ " and " ++ c.source ++ " both translate to " ++ c.output) := by
  obtain ⟨sources, hsources⟩ := exists_sourceLocations_iff.mpr fun c hc => (hlocated c hc).1
  constructor
  · rw [check_eq_ok_iff]
    constructor
    · rintro ⟨-, -, hdistinct, hne⟩
      refine ⟨hdistinct, fun c hc => ?_⟩
      rintro ⟨d, hd, heq⟩
      exact hne c hc d hd heq
    · rintro ⟨hdistinct, hover⟩
      exact ⟨fun c hc => (hlocated c hc).1, fun c hc => (hlocated c hc).2, hdistinct,
        fun c hc d hd heq => hover c hc ⟨d, hd, heq⟩⟩
  · intro conflict h
    rw [check, hsources] at h
    obtain ⟨before, c, after, loc, rfl, hbefore, hloc, hclash⟩ :=
      checkFrom_eq_error (fun c hc => (hlocated c hc).2) h
    obtain ⟨hpassed, hdistinct⟩ := checkFrom_eq_ok_iff.mp hbefore
    have hget : (before ++ c :: after)[before.length]? = some c := by simp
    have hfirst : ∀ i < before.length, ¬ Clashes t (before ++ c :: after) i := by
      refine fun i => not_clashes hdistinct fun d hd => ?_
      obtain ⟨loc', hloc', hnotMem, -⟩ := hpassed d hd
      rwa [overwrites_iff hsources hloc']
    have hover : Overwrites t (before ++ c :: after) c ↔ loc ∈ sources :=
      overwrites_iff hsources hloc
    rcases hclash with ⟨hmem, rfl⟩ | ⟨hnotMem, first, rfl, hmem | ⟨d, hd, hloc', rfl⟩⟩
    · refine ⟨before.length, c, hget, .inl ⟨c, hget, hover.mpr hmem⟩, hfirst,
        fun _ => ⟨rfl, rfl⟩, ?_⟩
      exact fun hnot => absurd (hover.mpr hmem) hnot
    · cases hmem
    · obtain ⟨i, hi⟩ := List.mem_iff_getElem?.mp hd
      have hrepeats : ∀ i', Repeats t (before ++ c :: after) i' before.length ↔ i' = i := fun i' =>
        repeats_length_iff hdistinct hi (hloc'.trans hloc.symm)
      have hi' : (before ++ c :: after)[i]? = some d :=
        (List.getElem?_append_left (List.getElem?_eq_some_iff.mp hi).1).trans hi
      refine ⟨before.length, c, hget, .inr ⟨i, (hrepeats i).mpr rfl⟩, hfirst, ?_, ?_⟩
      · exact fun hmem => absurd (hover.mp hmem) hnotMem
      · exact fun _ => ⟨i, d, hi', hrepeats, rfl, rfl⟩

/-- A working directory with nothing in it. -/
def emptyDirectory : FileTree := ⟨[(["w"], .directory)], ["w"], .upFrom 0, 0⟩

/-- A batch whose second output repeats the first one, and whose third output goes to the first
source. -/
def clashingBatch : List CompiledSource :=
  [⟨"a.ml", "x.c", []⟩, ⟨"b.ml", "../w//x.c", []⟩, ⟨"c.ml", "./a.ml", []⟩]

/-- The second output is reported, together with the first source. -/
theorem check_reports_first_clash_repeated :
    (∀ c ∈ clashingBatch, (∃ loc, emptyDirectory.locate c.source = .ok loc) ∧
      ∃ loc, emptyDirectory.locate c.output = .ok loc) ∧
    check emptyDirectory clashingBatch = .error (.shared "a.ml" "b.ml" "../w//x.c") ∧
    (OutputConflict.shared "a.ml" "b.ml" "../w//x.c").message =
      "a.ml and b.ml both translate to ../w//x.c" ∧
    ∃ j c, clashingBatch[j]? = some c ∧ Clashes emptyDirectory clashingBatch j ∧
      ∀ i < j, ¬ Clashes emptyDirectory clashingBatch i := by
  have hcwd : emptyDirectory.lookup emptyDirectory.cwd = some .directory := by decide
  have hcheck : check emptyDirectory clashingBatch =
      .error (.shared "a.ml" "b.ml" "../w//x.c") := by decide +kernel
  have hlocated : ∀ c ∈ clashingBatch, (∃ loc, emptyDirectory.locate c.source = .ok loc) ∧
      ∃ loc, emptyDirectory.locate c.output = .ok loc := fun c _ =>
    ⟨exists_locate_eq_ok hcwd c.source, exists_locate_eq_ok hcwd c.output⟩
  obtain ⟨j, c, hget, hclash, hfirst, -⟩ := (check_reports_first_clash hlocated).2 _ hcheck
  exact ⟨hlocated, hcheck, by decide, j, c, hget, hclash, hfirst⟩

end Arrowlet
