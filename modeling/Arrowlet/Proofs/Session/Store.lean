import Arrowlet.Proofs.Batch.Writing
import Arrowlet.Proofs.Session.Log
import Mathlib.Control.Monad.Basic
import Mathlib.Data.List.Nodup

/-!
# What a session makes of a tree

`sessions_keep_store`: the tree of every session is the initial one with the updates put in their
places, in their order, and the pending files beside it. This supposes only that no path of a call
leads to a temporary file of the session.

The invariant that a call keeps is `Session.Sound`. Its point is that nothing ever comes back to the
place of a temporary file: the numbers of temporary files are read off their names, and none of them
comes twice (`FileTree.stage_index`, `FileTree.index_eq_of_tempName_eq`), and targets are elsewhere.
So to commit or to discard a file once more finds nothing (`Session.Sound.lookup_settled`).
-/

namespace Arrowlet

open FileTree

namespace Session

/-! ## The invariant -/

/-- What is known of a file that is staged in a session. The session began with the tree `t`, and
`temps` are the locations of the temporary files that it stages in all. -/
structure StagedIn (t : FileTree) (temps : List Location) (σ : Session) (s : Staged) : Prop where
  /-- The file is for a path of a call. -/
  stagesFor : ∃ path, t.StagesFor path s
  /-- It is not for the place of a temporary file. -/
  target_notMem : s.target ∉ temps
  /-- It has been counted among the temporary files. -/
  temp_mem : s.temp ∈ temps
  /-- Its number has been given away. -/
  numbered : ∃ index < σ.tree.serial, ∃ dir base,
    s.temp = dir ++ [tempName base (t.numbers.number index)]
  /-- Nothing has been put in its place for good. -/
  absent : (t.putAll σ.updates).lookup s.temp = none

/-- The invariant of a session that began with the tree `t`. -/
structure Sound (t : FileTree) (temps : List Location) (σ : Session) : Prop where
  /-- The tree is as the log says. -/
  beside : Beside (t.putAll σ.updates) σ.pending σ.tree
  /-- The directories are those of the beginning. -/
  directory_iff : ∀ loc,
    (t.putAll σ.updates).lookup loc = some .directory ↔ t.lookup loc = some .directory
  /-- The files of the log are staged. -/
  staged : ∀ f ∈ σ.files, StagedIn t temps σ f.1
  /-- Their places are different. -/
  nodup : (σ.files.map fun f => f.1.temp).Nodup
  /-- What is settled has been staged. -/
  settled_mem : ∀ s ∈ σ.settled, s ∈ σ.files.map Prod.fst
  /-- Nothing has been committed twice. -/
  commits_nodup : σ.commits.Nodup

section
variable {σ : Session} {t t' : FileTree} {temps : List Location} {s : Staged} {node : Node}
  {event : Event}

theorem Sound.init (t : FileTree) (temps : List Location) : Sound t temps ⟨t, []⟩ where
  beside := .refl t
  directory_iff _ := Iff.rfl
  staged := nofun
  nodup := .nil
  settled_mem := nofun
  commits_nodup := .nil

/-- A path leads where it led at the beginning. -/
theorem Sound.locate_eq (h : Sound t temps σ) (path : Bytes) :
    σ.tree.locate path = t.locate path :=
  (h.beside.locate_eq path).trans
    (locate_congr (cwd_putAll t σ.updates) (h.directory_iff t.cwd) path)

/-- Temporary files get the numbers that they would have got at the beginning. -/
theorem Sound.numbers_eq (h : Sound t temps σ) : σ.tree.numbers = t.numbers :=
  h.beside.numbers_eq.trans (numbers_putAll t σ.updates)

/-- A staged file is given by its place. -/
theorem Sound.eq_of_temp_eq (h : Sound t temps σ) {f g : Staged × Node} (hf : f ∈ σ.files)
    (hg : g ∈ σ.files) (htemp : f.1.temp = g.1.temp) : f = g :=
  List.inj_on_of_nodup_map h.nodup hf hg htemp

/-! ## Pending files -/

/-- A pending file is in one of the places of temporary files. -/
theorem Sound.pending_mem (h : Sound t temps σ) {loc : Location}
    (hloc : loc ∈ σ.pending.map Prod.fst) : loc ∈ temps := by
  rw [pending, List.map_map] at hloc
  obtain ⟨f, hf, rfl⟩ := List.mem_map.mp hloc
  exact (h.staged f (List.mem_filter.mp hf).1).temp_mem

/-- Events that neither stage nor settle a file leave the pending ones. -/
theorem pending_record (hfile : event.file? = none) (hsettled : event.settled? = none) :
    (σ.record t' event).pending = σ.pending := by
  rw [pending, pending, waiting, waiting, files_record, settled_record, hfile, hsettled,
    Option.toList_none, Option.toList_none, List.append_nil, List.append_nil]

/-- To settle a settled file again leaves the pending ones. -/
theorem pending_record_settled (hs : s ∈ σ.settled) (hfile : event.file? = none)
    (hsettled : event.settled? = some s) : (σ.record t' event).pending = σ.pending := by
  have hwaiting : (σ.record t' event).waiting = σ.waiting := by
    rw [waiting, waiting, files_record, settled_record, hfile, hsettled, Option.toList_none,
      List.append_nil, Option.toList_some]
    refine List.filter_congr fun f _ => ?_
    simp only [List.mem_append, List.mem_singleton]
    grind
  rw [pending, pending, hwaiting]

/-- To settle a file that waits takes it away from the pending ones. -/
theorem Sound.perm_pending (h : Sound t temps σ) (hf : (s, node) ∈ σ.files) (hs : s ∉ σ.settled)
    (t' : FileTree) (hfile : event.file? = none) (hsettled : event.settled? = some s) :
    σ.pending.Perm ((s.temp, node) :: (σ.record t' event).pending) := by
  have hmem : (s, node) ∈ σ.waiting := List.mem_filter.mpr ⟨hf, decide_eq_true hs⟩
  have hnodup : σ.waiting.Nodup := (List.Nodup.of_map _ h.nodup).filter _
  have hwaiting : σ.waiting.erase (s, node) = (σ.record t' event).waiting := by
    rw [hnodup.erase_eq_filter, waiting, waiting, List.filter_filter, files_record, settled_record,
      hfile, hsettled, Option.toList_none, List.append_nil, Option.toList_some]
    refine List.filter_congr fun f hfmem => ?_
    have hne : f ≠ (s, node) ↔ f.1 ≠ s := by
      refine not_congr ⟨fun heq => congrArg Prod.fst heq, fun heq => ?_⟩
      exact h.eq_of_temp_eq hfmem hf (congrArg Staged.temp heq)
    simp only [bne, List.mem_append, List.mem_singleton, not_or]
    grind
  rw [pending, pending, ← hwaiting]
  exact (List.perm_cons_erase hmem).map fun f => (f.1.temp, f.2)

/-- The temporary file of a settled file is gone. -/
theorem Sound.lookup_settled (h : Sound t temps σ) (hf : (s, node) ∈ σ.files)
    (hs : s ∈ σ.settled) : σ.tree.lookup s.temp = none := by
  have hpending : s.temp ∉ σ.pending.map Prod.fst := by
    intro hmem
    rw [pending, List.map_map] at hmem
    obtain ⟨g, hg, htemp⟩ := List.mem_map.mp hmem
    obtain ⟨hgfiles, hgwaits⟩ := List.mem_filter.mp hg
    cases h.eq_of_temp_eq hgfiles hf htemp
    exact of_decide_eq_true hgwaits hs
  rw [h.beside.lookup_of_notMem _ hpending]
  exact (h.staged _ hf).absent

/-! ## What a call keeps -/

/-- An event that stages nothing keeps the invariant if the tree is as the log says. An update has
to leave directories and places of temporary files alone, and a commit has to be the first. -/
theorem Sound.record (h : Sound t temps σ) (hfile : event.file? = none)
    (hbeside : Beside (t.putAll (σ.record t' event).updates) (σ.record t' event).pending t')
    (hserial : σ.tree.serial ≤ t'.serial)
    (hupdate : ∀ u ∈ event.update?, u.1 ≠ [] ∧ u.2 ≠ .directory ∧ u.1 ∉ temps ∧
      (t.putAll σ.updates).lookup u.1 ≠ some .directory)
    (hsettled : ∀ s ∈ event.settled?, s ∈ σ.files.map Prod.fst)
    (hcommit : ∀ s ∈ event.commit?, s ∉ σ.settled) : Sound t temps (σ.record t' event) := by
  have hfiles : (σ.record t' event).files = σ.files := by
    rw [files_record, hfile, Option.toList_none, List.append_nil]
  have hbase : (∀ loc, (t.putAll (σ.record t' event).updates).lookup loc = some .directory ↔
        t.lookup loc = some .directory) ∧
      ∀ f ∈ σ.files, (t.putAll (σ.record t' event).updates).lookup f.1.temp = none := by
    rw [updates_record]
    cases hu : event.update? with
    | none =>
      rw [Option.toList_none, List.append_nil]
      exact ⟨h.directory_iff, fun f hf => (h.staged f hf).absent⟩
    | some u =>
      obtain ⟨hroot, hnode, htemps, hdir⟩ := hupdate u hu
      rw [Option.toList_some, putAll_concat]
      refine ⟨fun loc => (directory_iff_put hroot _ hnode hdir loc).trans (h.directory_iff loc),
        fun f hf => ?_⟩
      have hne : f.1.temp ≠ u.1 := fun heq => htemps (heq ▸ (h.staged f hf).temp_mem)
      rw [lookup_put _ _ _ _ hroot, if_neg hne]
      exact (h.staged f hf).absent
  refine ⟨hbeside, hbase.1, ?_, ?_, ?_, ?_⟩
  · rw [hfiles]
    intro f hf
    obtain ⟨hfor, htarget, htemp, ⟨index, hlt, hname⟩, -⟩ := h.staged f hf
    exact ⟨hfor, htarget, htemp, ⟨index, Nat.lt_of_lt_of_le hlt hserial, hname⟩, hbase.2 f hf⟩
  · rw [hfiles]
    exact h.nodup
  · rw [hfiles, settled_record]
    intro s hs
    rcases List.mem_append.mp hs with hs | hs
    · exact h.settled_mem s hs
    · exact hsettled s (Option.mem_toList.mp hs)
  · rw [commits_record]
    cases hc : event.commit? with
    | none =>
      rw [Option.toList_none, List.append_nil]
      exact h.commits_nodup
    | some s =>
      rw [Option.toList_some, ← List.concat_eq_append]
      exact h.commits_nodup.concat fun hmem => hcommit s hc (settled_of_mem_commits hmem)

/-- A call that fails keeps the invariant if the tree is still as the log says. -/
theorem Sound.failed (h : Sound t temps σ) (hbeside : Beside (t.putAll σ.updates) σ.pending t')
    (hserial : σ.tree.serial ≤ t'.serial) : Sound t temps (σ.record t' .failed) := by
  refine h.record rfl ?_ hserial nofun nofun nofun
  rw [updates_record, pending_record rfl rfl]
  exact (List.append_nil σ.updates).symm ▸ hbeside

/-- A file that is staged gets a place that no other one has had. -/
theorem Sound.temp_ne (h : Sound t temps σ) {path data : Bytes} {mode : Nat}
    (hstage : σ.tree.stage path data mode = (.ok s, t')) : ∀ f ∈ σ.files, f.1.temp ≠ s.temp := by
  intro f hf heq
  obtain ⟨index, hname, hle, -⟩ := stage_index hstage
  obtain ⟨index', hlt, dir, base, hname'⟩ := (h.staged f hf).numbered
  rw [hname, hname', h.numbers_eq] at heq
  have hsame := index_eq_of_tempName_eq (List.singleton_inj.mp (List.append_inj' heq rfl).2)
  omega

/-- Staging keeps the invariant. -/
theorem Sound.stage (h : Sound t temps σ) {path data : Bytes} {mode : Nat}
    (hstage : σ.tree.stage path data mode = (.ok s, t'))
    (hpath : ∀ temp ∈ temps, t.locate path ≠ .ok temp) (htemp : s.temp ∈ temps) :
    Sound t temps (σ.record t' (.staged s (content data mode))) := by
  obtain ⟨hbeside, hfor⟩ := h.beside.stage hstage
  have hfor' : t.StagesFor path s :=
    hfor.congr (cwd_putAll t σ.updates).symm fun loc => (h.directory_iff loc).symm
  obtain ⟨index, hname, hle, hlt⟩ := stage_index hstage
  rw [h.numbers_eq] at hname
  have hnew := h.temp_ne hstage
  have hsettled : s ∉ σ.settled := by
    intro hs
    obtain ⟨f, hf, rfl⟩ := List.mem_map.mp (h.settled_mem s hs)
    exact hnew f hf rfl
  have hfiles : (σ.record t' (.staged s (content data mode))).files =
      σ.files ++ [(s, content data mode)] := files_record
  have hupdates : (σ.record t' (.staged s (content data mode))).updates = σ.updates :=
    updates_record.trans (List.append_nil _)
  have hsettled' : (σ.record t' (.staged s (content data mode))).settled = σ.settled :=
    settled_record.trans (List.append_nil _)
  have hpending : (σ.record t' (.staged s (content data mode))).pending =
      σ.pending ++ [(s.temp, content data mode)] := by
    rw [pending, waiting, hfiles, hsettled', List.filter_append, List.map_append]
    simp [hsettled, pending, waiting]
  refine ⟨?_, ?_, ?_, ?_, ?_, ?_⟩
  · rw [hupdates, hpending]
    exact hbeside.perm (List.perm_append_singleton _ _).symm
  · rw [hupdates]
    exact h.directory_iff
  · rw [hfiles, List.forall_mem_append, List.forall_mem_singleton]
    refine ⟨fun f hf => ?_, ⟨path, hfor'⟩, fun hmem => hpath _ hmem hfor'.locate_eq, htemp,
      ⟨index, hlt, _, _, hname⟩, ?_⟩
    · obtain ⟨hfor, htarget, htemp, ⟨index', hlt', hname'⟩, habsent⟩ := h.staged f hf
      refine ⟨hfor, htarget, htemp, ⟨index', ?_, hname'⟩, by rwa [hupdates]⟩
      exact Nat.lt_trans (Nat.lt_of_lt_of_le hlt' hle) hlt
    · rw [hupdates]
      exact hbeside.fresh _ (.head _)
  · rw [hfiles, List.map_append, List.map_singleton, ← List.concat_eq_append]
    refine h.nodup.concat fun hmem => ?_
    obtain ⟨f, hf, heq⟩ := List.mem_map.mp hmem
    exact hnew f hf heq
  · rw [hfiles, hsettled', List.map_append]
    exact fun s' hs' => List.mem_append_left _ (h.settled_mem s' hs')
  · rw [commits_record]
    exact (List.append_nil σ.commits).symm ▸ h.commits_nodup

/-- A commit that succeeds keeps the invariant. -/
theorem Sound.commit (h : Sound t temps σ) (hf : (s, node) ∈ σ.files)
    (hcommit : σ.tree.commit s = (.ok (), t')) :
    Sound t temps (σ.record t' (.committed s node)) := by
  have hs : s ∉ σ.settled := by
    intro hs
    obtain ⟨e, he⟩ := commit_of_lookup_eq_none (h.lookup_settled hf hs)
    cases he.symm.trans hcommit
  obtain ⟨⟨path, hfor⟩, htarget, -, -, -⟩ := h.staged _ hf
  have hperm : σ.pending.Perm ((s.temp, node) :: (σ.record t' (.committed s node)).pending) :=
    h.perm_pending hf hs t' rfl rfl
  have hbeside := h.beside.perm hperm
  have hplaces : s.target ∉
      ((s.temp, node) :: (σ.record t' (.committed s node)).pending).map Prod.fst := fun hmem =>
    htarget (h.pending_mem ((hperm.map Prod.fst).mem_iff.mpr hmem))
  obtain ⟨hdir, hplaced⟩ := hbeside.commit hfor.target_ne hplaces hcommit
  refine h.record rfl ?_ (Nat.le_of_eq (serial_of_commit hcommit).symm) ?_ ?_ ?_
  · rw [updates_record]
    exact (putAll_concat t σ.updates (s.target, node)).symm ▸ hplaced
  · rintro u ⟨⟩
    exact ⟨hfor.target_ne, hbeside.not_directory (s.temp, node) (.head _), htarget, hdir⟩
  · rintro s' ⟨⟩
    exact List.mem_map.mpr ⟨_, hf, rfl⟩
  · rintro s' ⟨⟩
    exact hs

/-- To take the temporary file of a staged file away, if it is still there, keeps the invariant. -/
theorem Sound.settle (h : Sound t temps σ) (hf : (s, node) ∈ σ.files) (hfile : event.file? = none)
    (hsettled : event.settled? = some s) (hcommit : event.commit? = none)
    (hupdate : event.update? = none) : Sound t temps (σ.record (σ.tree.discard s) event) := by
  refine h.record hfile ?_ (Nat.le_refl _) (by simp [hupdate]) ?_ (by simp [hcommit])
  · rw [updates_record, hupdate, Option.toList_none, List.append_nil]
    by_cases hs : s ∈ σ.settled
    · rw [pending_record_settled hs hfile hsettled, FileTree.discard,
        erase_eq_self (h.lookup_settled hf hs)]
      exact h.beside
    · exact (h.beside.perm (h.perm_pending hf hs _ hfile hsettled)).discard
  · rw [hsettled]
    rintro s' ⟨⟩
    exact List.mem_map.mpr ⟨_, hf, rfl⟩

/-- A write that succeeds keeps the invariant. -/
theorem Sound.write (h : Sound t temps σ) {path data : Bytes} {mode : Nat}
    (hwrite : σ.tree.writeAtomic path data mode = (.ok (), t'))
    (hpath : ∀ temp ∈ temps, t.locate path ≠ .ok temp) :
    ∃ target, σ.tree.locate path = .ok target ∧
      Sound t temps (σ.record t' (.written target (content data mode))) := by
  obtain ⟨s, t₁, hstage, hcommit⟩ := writeAtomic_eq_ok hwrite
  obtain ⟨hbeside, hfor⟩ := h.beside.stage hstage
  obtain ⟨index, -, hle, hlt⟩ := stage_index hstage
  have hlocate : σ.tree.locate path = .ok s.target := (h.beside.locate_eq path).trans hfor.locate_eq
  have htarget : s.target ∉ temps := fun hmem =>
    hpath _ hmem ((h.locate_eq path).symm.trans hlocate)
  have hplaces : s.target ∉ ((s.temp, content data mode) :: σ.pending).map Prod.fst := by
    rw [List.map_cons, List.mem_cons, not_or]
    exact ⟨hfor.target_ne_temp, fun hmem => htarget (h.pending_mem hmem)⟩
  obtain ⟨hdir, hplaced⟩ := hbeside.commit hfor.target_ne hplaces hcommit
  refine ⟨s.target, hlocate, h.record rfl ?_ ?_ ?_ nofun nofun⟩
  · rw [updates_record, pending_record rfl rfl]
    exact (putAll_concat t σ.updates (s.target, content data mode)).symm ▸ hplaced
  · rw [serial_of_commit hcommit]
    omega
  · rintro u ⟨⟩
    exact ⟨hfor.target_ne, nofun, htarget, hdir⟩

/-! ## Runs -/

/-- Every call keeps the invariant. -/
theorem Sound.step (h : Sound t temps σ) (call : Call)
    (hpaths : ∀ path ∈ call.paths, ∀ temp ∈ temps, t.locate path ≠ .ok temp)
    (htemps : ∀ f ∈ (σ.step call).files, f.1.temp ∈ temps) : Sound t temps (σ.step call) := by
  cases call with
  | stage path data mode =>
    cases hstage : σ.tree.stage path data mode with
    | mk result t' =>
      cases result with
      | error e =>
        simp only [Session.step, hstage]
        rw [stage_eq_error hstage]
        exact h.failed h.beside (Nat.le_refl _)
      | ok s =>
        simp only [Session.step, hstage] at htemps ⊢
        refine h.stage hstage (hpaths path (.head _)) (htemps (s, content data mode) ?_)
        rw [files_record]
        exact List.mem_append_right _ (.head _)
  | commit index =>
    rw [Session.step]
    split
    · exact h
    · next s node hindex =>
      have hf := List.mem_of_getElem? hindex
      split
      · next hcommit => exact h.commit hf hcommit
      · next hcommit =>
        rw [commit_eq_error hcommit]
        exact h.settle hf rfl rfl rfl rfl
  | discard index =>
    rw [Session.step]
    split
    · exact h
    · next hindex => exact h.settle (List.mem_of_getElem? hindex) rfl rfl rfl rfl
  | write path data mode =>
    cases hwrite : σ.tree.writeAtomic path data mode with
    | mk result t' =>
      cases result with
      | error e =>
        obtain ⟨hbeside, hserial⟩ := h.beside.writeAtomic_error hwrite
        have hstep : σ.step (.write path data mode) = σ.record t' .failed := by
          rw [Session.step, hwrite]
          cases σ.tree.locate path <;> rfl
        rw [hstep]
        exact h.failed hbeside hserial
      | ok =>
        obtain ⟨target, htarget, hsound⟩ := h.write hwrite (hpaths path (.head _))
        simp only [Session.step, htarget, hwrite]
        exact hsound

/-- Every run of calls keeps the invariant. -/
theorem Sound.foldl (h : Sound t temps σ) (calls : List Call)
    (hpaths : ∀ call ∈ calls, ∀ path ∈ call.paths, ∀ temp ∈ temps, t.locate path ≠ .ok temp)
    (htemps : ∀ f ∈ (calls.foldl Session.step σ).files, f.1.temp ∈ temps) :
    Sound t temps (calls.foldl Session.step σ) := by
  induction calls generalizing σ with
  | nil => exact h
  | cons call calls ih =>
    obtain ⟨hcall, hcalls⟩ := List.forall_mem_cons.mp hpaths
    refine ih (h.step call hcall fun f hf => ?_) hcalls htemps
    exact htemps f (mem_files_foldl hf calls)

/-- The invariant holds after every run, with the temporary files that it stages in all. -/
theorem NamesNoTemp.sound {calls : List Call} (h : NamesNoTemp t calls) :
    Sound t ((run t calls).files.map fun f => f.1.temp) (run t calls) := by
  refine (Sound.init t _).foldl calls (fun call hcall path hpath temp htemp => ?_) fun f hf => ?_
  · obtain ⟨f, hf, rfl⟩ := List.mem_map.mp htemp
    exact h call hcall path hpath f hf
  · exact List.mem_map.mpr ⟨f, hf, rfl⟩

/-- What the tree `t` has become in a session. -/
structure Keeps (t : FileTree) (σ : Session) : Prop where
  /-- It holds what took effect, in the order in which it did, and beside that the temporary files
  of what still waits. -/
  beside : Beside (t.putAll σ.updates) σ.pending σ.tree
  /-- Staged files are told apart by their temporary files, also by those that are gone. -/
  temps_nodup : (σ.files.map fun f => f.1.temp).Nodup
  /-- No staged file takes effect twice. -/
  commits_nodup : σ.commits.Nodup
  /-- To commit what was committed or discarded before fails and changes nothing. -/
  commit_settled : ∀ f ∈ σ.files, f.1 ∈ σ.settled → ∃ e, σ.tree.commit f.1 = (.error e, σ.tree)
  /-- To discard it changes nothing either. -/
  discard_settled : ∀ f ∈ σ.files, f.1 ∈ σ.settled → σ.tree.discard f.1 = σ.tree
  /-- What still waits can be committed, unless a directory is in its place. -/
  commit_waiting : t.cwd.IsClean → ∀ f ∈ σ.waiting, t.lookup f.1.target ≠ some .directory →
    ∃ t', σ.tree.commit f.1 = (.ok (), t')
  /-- A commit that fails changes no place but that of the temporary file, which is removed. -/
  commit_error : ∀ f ∈ σ.files, ∀ e t', σ.tree.commit f.1 = (.error e, t') →
    ∀ loc, t'.lookup loc = if loc = f.1.temp then none else σ.tree.lookup loc
  /-- Content that cannot be staged changes nothing. -/
  stage_error : ∀ path data mode e t', σ.tree.stage path data mode = (.error e, t') → t' = σ.tree
  /-- A write that fails changes no place. -/
  write_error : ∀ path data mode e t', σ.tree.writeAtomic path data mode = (.error e, t') →
    ∀ loc, t'.lookup loc = σ.tree.lookup loc

end

end Session

open Session

/-- **Staged files make up a store.** After any calls that stage, commit, discard and write files,
none of which names a temporary file, the tree holds what took effect, in its order, and the
temporary files of what still waits. A staged file takes effect at most once; to commit or discard
it again changes nothing, and a call that fails only removes its own temporary file. -/
theorem sessions_keep_store (t : FileTree) (calls : List Call) (h : NamesNoTemp t calls) :
    Keeps t (run t calls) := by
  have hsound := h.sound
  generalize run t calls = σ at hsound
  have htemp : ∀ f ∈ σ.files, f.1.temp ≠ [] := by
    intro f hf hroot
    have habsent := (hsound.staged f hf).absent
    rw [hroot, lookup_root] at habsent
    cases habsent
  refine ⟨hsound.beside, hsound.nodup, hsound.commits_nodup,
    fun f hf hs => commit_of_lookup_eq_none (hsound.lookup_settled hf hs),
    fun f hf hs => erase_eq_self (hsound.lookup_settled hf hs), fun hclean f hf hdir => ?_,
    fun f hf e t' hcommit loc => ?_, fun path data mode e t' => stage_eq_error,
    fun path data mode e t' hwrite loc => ?_⟩
  · obtain ⟨hfile, hwaits⟩ := List.mem_filter.mp hf
    obtain ⟨path, hfor⟩ := (hsound.staged f hfile).stagesFor
    have hperm : σ.pending.Perm ((f.1.temp, f.2) :: (σ.record t (.discarded f.1)).pending) :=
      hsound.perm_pending hfile (of_decide_eq_true hwaits) t rfl rfl
    have hcwd := cwd_putAll t σ.updates
    refine (hsound.beside.perm hperm).commit_eq_ok (hfor.congr hcwd hsound.directory_iff)
      (hcwd ▸ hclean) fun hplace => hdir ((hsound.directory_iff _).mp hplace)
  · rw [commit_eq_error hcommit, FileTree.discard, lookup_erase _ _ _ (htemp f hf)]
  · have hbeside := ((Beside.refl σ.tree).writeAtomic_error hwrite).1
    exact hbeside.lookup_of_notMem loc (by simp)

/-- A directory with a file in it, and with a directory. -/
def storeTree : FileTree where
  entries :=
    [(["w"], .directory), (["w", "a.c"], .file "old" 0o600), (["w", "b.c"], .directory)]
  cwd := ["w"]
  numbers := .upFrom 40
  serial := 3

/-- Two files for one target, one for a place that is taken, one that waits, and two writes, of
which the second has no directory to go to. -/
def storeCalls : List Call :=
  [.stage "a.c" "one" 0o644, .stage "/w/a.c" "two" 0o600, .stage "b.c" "three" 0o644, .commit 1,
    .commit 1, .discard 1, .write "../w/c.c" "four" 0o4755, .commit 2, .stage "d.c" "five" 0o640,
    .commit 0, .write "none/e.c" "six" 0o644]

/-- Three updates take effect, and the file that was staged last waits. -/
theorem sessions_keep_store_mixed :
    NamesNoTemp storeTree storeCalls ∧ Keeps storeTree (run storeTree storeCalls) ∧
    (run storeTree storeCalls).updates =
      ([(["w", "a.c"], .file "two" 0o600), (["w", "c.c"], .file "four" 0o755),
        (["w", "a.c"], .file "one" 0o644)] : List (Location × Node)) ∧
    (run storeTree storeCalls).pending =
      ([(["w", ".d.c.tmp-47"], .file "five" 0o640)] : List (Location × Node)) := by
  have hnames : NamesNoTemp storeTree storeCalls := by
    unfold NamesNoTemp
    decide +kernel
  exact ⟨hnames, sessions_keep_store _ _ hnames, by decide +kernel, by decide +kernel⟩

end Arrowlet
