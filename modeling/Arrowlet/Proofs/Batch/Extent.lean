import Arrowlet.Proofs.Batch.Writing
import Arrowlet.Proofs.FileTree.CanStage

/-!
# How far a batch is written

Whatever the outputs of a batch are, one number `k` tells how writing it has ended (`Batch.Extent`):
the first `k` outputs are in place, put there one after the other, there is a line about each in the
log, and nothing else has changed. How large `k` is and which output a failure names can be told
from the tree before. If there is an output that cannot be staged (`Batch.unstaged?`), nothing is
written, since all outputs are staged before the first one is committed. Otherwise `k` is the number
of outputs before the first one that leads to a directory. The message about a failure names the
output and says what went wrong with it (`Batch.Tells`).

That it is the tree before which tells what can be staged rests on `FileTree.HasTemps.stage`: the
temporary files that are already there are in nobody's way.
-/

namespace Arrowlet

open FileTree

namespace Batch

/-- The first output of a batch that cannot be staged, where temporary files get the numbers from
`serial` on. Every one that can be staged takes the first of these whose name is free. -/
def unstaged? (t : FileTree) : (serial : Nat) → List CompiledSource → Option CompiledSource
  | _, [] => none
  | serial, c :: batch =>
    let index := t.tempIndex c.output serial
    if t.canStage c.output (t.numbers.number index) then unstaged? t (index + 1) batch else some c

/-- Staging a batch stops at the output `c`: those before it are staged one after the other, and in
the tree with their temporary files it is not. -/
inductive StagingStops :
    (t : FileTree) → (batch : List CompiledSource) → (c : CompiledSource) → FileError → Prop
  | here {t t' : FileTree} {c : CompiledSource} {batch : List CompiledSource} {cause : FileError}
      (h : t.stage c.output c.code outputMode = (.error cause, t')) :
      StagingStops t (c :: batch) c cause
  | later {t t' : FileTree} {c d : CompiledSource} {batch : List CompiledSource}
      {cause : FileError} {s : Staged} (hd : t.stage d.output d.code outputMode = (.ok s, t'))
      (h : StagingStops t' batch c cause) : StagingStops t (d :: batch) c cause

/-- A failure tells that an output could not be written, and why. -/
def Tells (failure : Option WriteError) (c : CompiledSource) (cause : Bytes) : Prop :=
  ∃ e, failure = some e ∧ e.output = c.output ∧
    e.message = "failed to write C file " ++ c.output.quoted ++ ": " ++ cause

/-- The node that an output is to become, with the place where its path leads. -/
def outputNode (t : FileTree) (c : CompiledSource) : Except FileError (Location × Node) :=
  (t.locate c.output).map fun loc => (loc, .file c.code 0o644)

/-- The line of the log about an output that is in place. -/
def writtenLine (c : CompiledSource) : Bytes :=
  "mylangc: " ++ c.source ++ " -> " ++ c.output ++ " (" ++ Bytes.decimal c.code.length ++
    " bytes)\n"

/-- Writing a batch to the tree `t` has got as far as its first `k` outputs. -/
structure Extent (t : FileTree) (batch : List CompiledSource) (k : Nat) (result : WriteResult) :
    Prop where
  /-- There are so many outputs. -/
  le_length : k ≤ batch.length
  /-- The working directory is the same. -/
  cwd_eq : result.tree.cwd = t.cwd
  /-- The first `k` outputs were put in place in their order, and nothing else has changed. -/
  lookup_eq : ∃ nodes, (batch.take k).map (outputNode t) = nodes.map .ok ∧
    ∀ loc, result.tree.lookup loc = (t.putAll nodes).lookup loc
  /-- The log has a line for each of them. -/
  log_eq : writtenLog result.written = (batch.take k).flatMap writtenLine
  /-- There is no failure exactly if these are all. -/
  failure_iff : result.failure = none ↔ k = batch.length
  /-- If an output cannot be staged, nothing is written, and the failure names the first such output
  and says why it cannot. -/
  unstaged : ∀ c, unstaged? t t.serial batch = some c → k = 0 ∧
    ∃ cause, StagingStops t batch c cause ∧ Tells result.failure c cause.message
  /-- Otherwise the first output that leads to a directory is where it ends, and the failure, if
  there is such an output, names it and says that its temporary file cannot be put in place. -/
  blocked : unstaged? t t.serial batch = none →
    k = batch.findIdx (fun c => t.leadsToDirectory c.output) ∧
      ∀ c, batch[k]? = some c → ∃ loc number, t.locate c.output = .ok loc ∧
        Tells result.failure c ("rename " ++
          Location.text (loc.directory ++ [tempName loc.base number]) ++ " " ++ loc.text ++
          ": file exists")

section
variable {base t : FileTree} {batch : List CompiledSource} {c : CompiledSource} {cause : FileError}

theorem tells_of_eq {failure : Option WriteError} (h : failure = some ⟨c.output, cause⟩) :
    Tells failure c cause.message := ⟨_, h, rfl, rfl⟩

/-! ## Staging -/

/-- If the first output is staged, the others tell what becomes of the batch. -/
theorem stageAll_cons_fst {s : Staged} {t' : FileTree}
    (h : t.stage c.output c.code outputMode = (.ok s, t')) :
    (stageAll t (c :: batch)).1 = (stageAll t' batch).1.map ((c, s) :: ·) := by
  rw [stageAll, h]
  dsimp only
  split
  · next hothers => rw [hothers]; rfl
  · next hothers => rw [hothers]; rfl

/-- The output that staging stops at is the one that is reported. -/
theorem StagingStops.stageAll_eq (h : StagingStops t batch c cause) :
    (stageAll t batch).1 = .error ⟨c.output, cause⟩ := by
  induction h with
  | here h => rw [stageAll, h]
  | later hd _ ih => rw [stageAll_cons_fst hd, ih]; rfl

/-- Staging a batch stops at the first output that cannot be staged in the tree before. -/
theorem stagingStops_of_unstaged? (h : HasTemps base t)
    (hunstaged : unstaged? base t.serial batch = some c) :
    ∃ cause, StagingStops t batch c cause := by
  induction batch generalizing t with
  | nil => cases hunstaged
  | cons d batch ih =>
    rw [unstaged?] at hunstaged
    split at hunstaged
    · next hcan =>
      obtain ⟨s, t', hstage, h', hserial⟩ := h.stage hcan d.code outputMode
      rw [← hserial] at hunstaged
      obtain ⟨cause, hstops⟩ := ih h' hunstaged
      exact ⟨cause, .later hstage hstops⟩
    · next hcan =>
      cases hunstaged
      obtain ⟨cause, hstage⟩ := h.stage_eq_error hcan c.code outputMode
      exact ⟨cause, .here hstage⟩

/-- All outputs are staged if none is found that cannot be. -/
theorem exists_stageAll_eq_ok (h : HasTemps base t)
    (hunstaged : unstaged? base t.serial batch = none) :
    ∃ staged, (stageAll t batch).1 = .ok staged := by
  induction batch generalizing t with
  | nil => exact ⟨[], rfl⟩
  | cons d batch ih =>
    rw [unstaged?] at hunstaged
    split at hunstaged
    · next hcan =>
      obtain ⟨s, t', hstage, h', hserial⟩ := h.stage hcan d.code outputMode
      rw [← hserial] at hunstaged
      obtain ⟨others, hothers⟩ := ih h' hunstaged
      exact ⟨_, by rw [stageAll_cons_fst hstage, hothers]; rfl⟩
    · cases hunstaged

/-! ## Writing -/

/-- If an output cannot be staged, nothing is written. -/
theorem StagingStops.write_eq (h : StagingStops t batch c cause) :
    (write t batch).written = [] ∧ (write t batch).failure = some ⟨c.output, cause⟩ := by
  have hstage := h.stageAll_eq
  rw [write]
  split
  · next hall =>
    rw [hall] at hstage
    cases hstage
    exact ⟨rfl, rfl⟩
  · next hall =>
    rw [hall] at hstage
    cases hstage

/-- If all outputs can be staged, a directory is in the way of the one after those that are
written. -/
theorem tells_of_getElem? (hclean : t.cwd.IsClean) (hapart : Apart t batch)
    (hstage : (stageAll t batch).1.isOk)
    (hc : batch[(write t batch).written.length]? = some c) :
    ∃ loc number, t.locate c.output = .ok loc ∧ Tells (write t batch).failure c
      ("rename " ++ Location.text (loc.directory ++ [tempName loc.base number]) ++ " " ++
        loc.text ++ ": file exists") := by
  rcases write_cases hapart with ⟨hnone, -⟩ | ⟨done, rest, -, hbatch, hfor, hcommits⟩
  · rw [hnone] at hstage
    cases hstage
  · rw [hcommits.written_eq, hbatch, List.length_map, List.getElem?_map,
      List.getElem?_append_right (Nat.le_refl _), Nat.sub_self, ← List.head?_eq_getElem?] at hc
    obtain ⟨p, hp, rfl⟩ := Option.map_eq_some_iff.mp hc
    have hmem : p ∈ done ++ rest := List.mem_append_right done (List.mem_of_mem_head? hp)
    obtain ⟨number, htemp⟩ := (hfor p hmem).temp_eq
    refine ⟨p.2.target, number, (hfor p hmem).locate_eq, ?_⟩
    have hfailure := hcommits.failure_eq hclean
    rw [hp] at hfailure
    have htells := tells_of_eq hfailure
    simp only [FileError.message, List.append_assoc] at htells
    simp only [← htemp, List.append_assoc]
    exact htells

theorem logLine_writtenMessage (c : CompiledSource) :
    logLine (writtenMessage c) = writtenLine c := by
  have hlast : (writtenMessage c).getLast? ≠ some Bytes.lineFeed := by
    have hend : (" bytes)" : Bytes).getLast? = some 0x29 := by decide
    rw [writtenMessage, List.getLast?_append, hend, Option.some_or]
    decide
  have hend : (" bytes)\n" : Bytes) = (" bytes)" : Bytes) ++ [Bytes.lineFeed] := by decide
  rw [logLine, Bytes.terminated, if_neg hlast, writtenLine, writtenMessage, hend]
  simp only [List.append_assoc]

/-- What is written was put in place in its order, and nothing else has changed. -/
theorem exists_lookup_write_eq (hapart : Apart t batch) :
    ∃ nodes, (write t batch).written.map (outputNode t) = nodes.map .ok ∧
      Beside (t.putAll nodes) [] (write t batch).tree := by
  rcases write_cases hapart with
    ⟨-, -, hwritten, -, hbeside⟩ | ⟨done, rest, -, -, hfor, hcommits⟩
  · exact ⟨[], by rw [hwritten]; rfl, hbeside⟩
  · refine ⟨done.map placed, ?_, hcommits.beside⟩
    rw [hcommits.written_eq, List.map_map, List.map_map]
    refine List.map_congr_left fun p hp => ?_
    simp only [Function.comp_apply, outputNode, (hfor p (List.mem_append_left rest hp)).locate_eq]
    rfl

end

end Batch

open Batch

/-- **A batch is written up to the first output that is refused**, whatever its outputs are, also if
some are the same. The working directory has to consist of names, as one that the system reports
does, and no output may go to the place of a temporary file of the batch. -/
theorem write_commits_first_outputs {t : FileTree} {batch : List CompiledSource}
    (hclean : t.cwd.IsClean) (hapart : Apart t batch) : ∃ k, Extent t batch k (write t batch) := by
  obtain ⟨hbegins, hfailure⟩ := write_written_isPrefix hapart
  obtain ⟨nodes, hnodes, hbeside⟩ := exists_lookup_write_eq hapart
  have htake : batch.take (write t batch).written.length = (write t batch).written :=
    (List.prefix_iff_eq_take.mp hbegins).symm
  refine ⟨(write t batch).written.length, hbegins.length_le, ?_, ?_, ?_, ?_, ?_, ?_⟩
  · exact hbeside.cwd_eq.trans (cwd_putAll t nodes)
  · rw [htake]
    exact ⟨nodes, hnodes, fun loc => hbeside.lookup_of_notMem loc (by simp)⟩
  · simp only [htake, writtenLog, logLine_writtenMessage]
  · exact hfailure.trans ⟨congrArg List.length, hbegins.eq_of_length⟩
  · intro c hc
    obtain ⟨cause, hstops⟩ := stagingStops_of_unstaged? (.refl t) hc
    obtain ⟨hwritten, hfailure'⟩ := hstops.write_eq
    exact ⟨by rw [hwritten]; rfl, cause, hstops, tells_of_eq hfailure'⟩
  · intro hnone
    obtain ⟨staged, hstaged⟩ := exists_stageAll_eq_ok (.refl t) hnone
    have hstage : (stageAll t batch).1.isOk := by rw [hstaged]; rfl
    refine ⟨?_, fun c hc => tells_of_getElem? hclean hapart hstage hc⟩
    rw [write_written hclean hapart, writable, if_pos hstage, List.takeWhile_eq_take_findIdx_not,
      List.length_take]
    simp [List.findIdx_le_length]

/-- A directory where an output has been before, with a temporary file of that time, and where a
directory has the name of another one. -/
def crowdedTree : FileTree where
  entries :=
    [(["w"], .directory), (["w", "a.c"], .file "old" 0o600),
      (["w", ".a.c.tmp-7"], .file "ol" 0o600), (["w", "b.c"], .directory)]
  cwd := ["w"]
  numbers := .upFrom 7
  serial := 0

/-- Two outputs for one place, one for a place that is taken, and one for a place that is free. -/
def crowdedBatch : List CompiledSource :=
  [⟨"a.ml", "a.c", "one"⟩, ⟨"o.ml", "../w//a.c", "two"⟩, ⟨"b.ml", "b.c", "three"⟩,
    ⟨"c.ml", "c.c", "four"⟩]

/-- The second output takes the place of the first, and the third ends it. -/
theorem write_commits_first_outputs_crowded :
    crowdedTree.cwd.IsClean ∧ Apart crowdedTree crowdedBatch ∧
    Extent crowdedTree crowdedBatch 2 (write crowdedTree crowdedBatch) ∧
    (write crowdedTree crowdedBatch).tree.lookup ["w", "a.c"] = some (.file "two" 0o644) ∧
    (write crowdedTree crowdedBatch).failure.map WriteError.message =
      some "failed to write C file \"b.c\": rename /w/.b.c.tmp-10 /w/b.c: file exists" := by
  have hclean : crowdedTree.cwd.IsClean := by
    simp only [crowdedTree, Location.IsClean, List.forall_mem_singleton, Location.IsName]
    decide
  have hapart : Apart crowdedTree crowdedBatch := by
    unfold Apart
    decide +kernel
  obtain ⟨k, h⟩ := write_commits_first_outputs hclean hapart
  have hk : k = 2 := (h.blocked (by decide +kernel)).1.trans (by decide +kernel)
  subst hk
  exact ⟨hclean, hapart, h, by decide +kernel, by decide +kernel⟩

end Arrowlet
