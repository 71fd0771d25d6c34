import Arrowlet.Batch.OutputWrite
import Arrowlet.Proofs.FileTree.Staging
import Mathlib.Data.List.TakeWhile

/-!
# What writing a batch does to a tree

All outputs are staged before the first one is committed. While they are staged, the tree is the one
before with temporary files beside it (`stageAll_eq_ok`); if one cannot be staged, it is the tree
before (`stageAll_eq_error`). Every commit takes one temporary file away and puts its output in
place, and the first that fails takes away all that are left (`commitAll_commits`).

`Batch.write_inPlace` sums this up: in the end the outputs that are reported as written are in
place, and there is no other change. Which these are is told by `Batch.write_written`: if all
outputs can be staged, those before the first one whose place is taken by a directory. Both suppose
that no output goes to the place of a temporary file of the batch (`Batch.Apart`).
-/

namespace Arrowlet

/-! ## Putting several files in place -/

namespace FileTree

/-- The tree with nodes put in their places, one after the other. -/
def putAll (t : FileTree) (nodes : List (Location × Node)) : FileTree :=
  nodes.foldl (fun t node => t.put node.1 node.2) t

/-- Whether a path leads to a directory. -/
def leadsToDirectory (t : FileTree) (path : Bytes) : Bool :=
  match t.locate path with
  | .error _ => false
  | .ok loc => t.lookup loc = some .directory

section
variable {t : FileTree} {nodes : List (Location × Node)} {loc : Location} {node : Node}

@[simp] theorem putAll_nil (t : FileTree) : t.putAll [] = t := rfl

@[simp] theorem putAll_cons (t : FileTree) (node : Location × Node)
    (nodes : List (Location × Node)) :
    t.putAll (node :: nodes) = (t.put node.1 node.2).putAll nodes := rfl

theorem putAll_concat (t : FileTree) (nodes : List (Location × Node)) (node : Location × Node) :
    t.putAll (nodes ++ [node]) = (t.putAll nodes).put node.1 node.2 := by
  rw [putAll, List.foldl_append]
  rfl

@[simp] theorem cwd_putAll (t : FileTree) (nodes : List (Location × Node)) :
    (t.putAll nodes).cwd = t.cwd := by
  induction nodes generalizing t with
  | nil => rfl
  | cons node nodes ih => exact ih _

@[simp] theorem numbers_putAll (t : FileTree) (nodes : List (Location × Node)) :
    (t.putAll nodes).numbers = t.numbers := by
  induction nodes generalizing t with
  | nil => rfl
  | cons node nodes ih => exact ih _

/-- What stands elsewhere stays. -/
theorem lookup_putAll_of_notMem (hroot : ∀ node ∈ nodes, node.1 ≠ [])
    (h : loc ∉ nodes.map Prod.fst) : (t.putAll nodes).lookup loc = t.lookup loc := by
  induction nodes generalizing t with
  | nil => rfl
  | cons node nodes ih =>
    rw [List.map_cons, List.mem_cons, not_or] at h
    rw [putAll_cons, ih (fun other hother => hroot other (.tail _ hother)) h.2,
      lookup_put _ _ _ _ (hroot node (.head _)), if_neg h.1]

/-- In a place where only one node was put stands this node. -/
theorem lookup_putAll_of_mem (hroot : ∀ node ∈ nodes, node.1 ≠ [])
    (hnodup : (nodes.map Prod.fst).Nodup) (h : (loc, node) ∈ nodes) :
    (t.putAll nodes).lookup loc = some node := by
  induction nodes generalizing t with
  | nil => cases h
  | cons first nodes ih =>
    rw [List.map_cons, List.nodup_cons] at hnodup
    have hroot' : ∀ node ∈ nodes, node.1 ≠ [] := fun other hother => hroot other (.tail _ hother)
    rw [putAll_cons]
    rcases List.mem_cons.mp h with rfl | h
    · rw [lookup_putAll_of_notMem hroot' hnodup.1, lookup_put _ _ _ _ (hroot _ (.head _)),
        if_pos rfl]
    · exact ih hroot' hnodup.2 h

/-- A file that is put in a place where no directory is changes no directory. -/
theorem directory_iff_put (hroot : loc ≠ []) (node : Node) (hnode : node ≠ .directory)
    (hloc : t.lookup loc ≠ some .directory) (other : Location) :
    (t.put loc node).lookup other = some .directory ↔ t.lookup other = some .directory := by
  rw [lookup_put _ _ _ _ hroot]
  split
  · next heq => simp [heq, hnode, hloc]
  · rfl

end

end FileTree

open FileTree

namespace Batch

/-- The temporary file of a staged output. -/
def pending (p : CompiledSource × Staged) : Location × Node :=
  (p.2.temp, .file p.1.code outputMode)

/-- The file that a staged output is to become. -/
def placed (p : CompiledSource × Staged) : Location × Node :=
  (p.2.target, .file p.1.code outputMode)

section
variable {base t t' : FileTree} {files : List (Location × Node)} {batch : List CompiledSource}
  {staged done rest : List (CompiledSource × Staged)}

/-! ## Staging a batch -/

/-- Staged outputs are temporary files beside the tree. -/
theorem stageAll_eq_ok (h : Beside base files t) (hstage : stageAll t batch = (.ok staged, t')) :
    staged.map Prod.fst = batch ∧ (∀ p ∈ staged, base.StagesFor p.1.output p.2) ∧
      Beside base (staged.map pending ++ files) t' := by
  induction batch generalizing t files staged t' with
  | nil =>
    cases hstage
    exact ⟨rfl, by simp, h⟩
  | cons c batch ih =>
    rw [stageAll] at hstage
    split at hstage
    · cases hstage
    · next s t₁ hs =>
      obtain ⟨hbeside, hfor⟩ := h.stage hs
      split at hstage
      · cases hstage
      · next others t₂ hothers =>
        cases hstage
        obtain ⟨hmap, hfor', hbeside'⟩ := ih hbeside hothers
        refine ⟨by rw [List.map_cons, hmap], ?_, hbeside'.perm List.perm_middle⟩
        rintro p (_ | ⟨_, hp⟩)
        · exact hfor
        · exact hfor' p hp

/-- If an output cannot be staged, no temporary file is left. -/
theorem stageAll_eq_error {e : WriteError} (h : Beside base files t)
    (hstage : stageAll t batch = (.error e, t')) : Beside base files t' := by
  induction batch generalizing t files t' with
  | nil => cases hstage
  | cons c batch ih =>
    rw [stageAll] at hstage
    split at hstage
    · next e' t₁ hs =>
      cases hstage
      rw [stage_eq_error hs]
      exact h
    · next s t₁ hs =>
      obtain ⟨hbeside, -⟩ := h.stage hs
      split at hstage
      · next e' t₂ hothers =>
        cases hstage
        exact (ih hbeside hothers).discard
      · cases hstage

/-! ## Committing a batch -/

/-- Discarding all staged outputs takes all temporary files away. -/
theorem beside_discardAll (h : Beside base (staged.map pending) t) :
    Beside base [] (staged.foldl (fun t p => t.discard p.2) t) := by
  induction staged generalizing t with
  | nil => exact h
  | cons p staged ih => exact ih h.discard

/-- What has come of committing staged outputs to the tree `base`: those of `done` are in place, and
the first of `rest` was refused. -/
structure Commits (base : FileTree) (done rest : List (CompiledSource × Staged))
    (result : WriteResult) : Prop where
  /-- The outputs of `done` are reported. -/
  written_eq : result.written = done.map Prod.fst
  /-- A failure is reported if there are others. -/
  failure_iff : result.failure = none ↔ rest = []
  /-- The outputs of `done` are in place, and no temporary file is left. -/
  beside : Beside (base.putAll (done.map placed)) [] result.tree
  /-- No directory was where they are. -/
  free : ∀ p ∈ done, base.lookup p.2.target ≠ some .directory
  /-- A directory is where the first of the others was to go. -/
  blocked : base.cwd.IsClean → ∀ p ∈ rest.head?, base.lookup p.2.target = some .directory
  /-- This is the failure that is reported. -/
  failure_eq : base.cwd.IsClean → result.failure = rest.head?.map fun p =>
    ⟨p.1.output, .cannotRename p.2.temp.text p.2.target.text .alreadyExists⟩

/-- Staged outputs are committed in their order, up to the first whose place is taken by a
directory. -/
theorem commitAll_commits (h : Beside base (staged.map pending) t)
    (hfor : ∀ p ∈ staged, base.StagesFor p.1.output p.2)
    (hapart : ∀ p ∈ staged, ∀ q ∈ staged, p.2.target ≠ q.2.temp) :
    ∃ done rest, staged = done ++ rest ∧ Commits base done rest (commitAll t staged) := by
  induction staged generalizing base t with
  | nil => exact ⟨[], [], rfl, ⟨rfl, by simp [commitAll], h, by simp, by simp, fun _ => rfl⟩⟩
  | cons p staged ih =>
    have hp := hfor p (.head _)
    rw [commitAll]
    split
    · next e t₁ hcommit =>
      have hdir : base.cwd.IsClean → base.lookup p.2.target = some .directory := by
        refine fun hclean => Decidable.byContradiction fun hdir => ?_
        obtain ⟨t₂, hok⟩ := h.commit_eq_ok hp hclean hdir
        rw [hcommit] at hok
        cases hok
      refine ⟨[], p :: staged, rfl, ⟨rfl, by simp, beside_discardAll (h.commit_error hcommit),
        by simp, ?_, fun hclean => ?_⟩⟩
      · rintro hclean _ ⟨⟩
        exact hdir hclean
      · cases hcommit.symm.trans (h.commit_of_directory hp hclean (hdir hclean))
        rfl
    · next t₁ hcommit =>
      have hbeside : p.2.target ∉ ((p :: staged).map pending).map Prod.fst := by
        rw [List.map_map]
        intro hmem
        obtain ⟨q, hq, heq⟩ := List.mem_map.mp hmem
        exact hapart p (.head _) q hq heq.symm
      obtain ⟨hfree, hnext⟩ := h.commit hp.target_ne hbeside hcommit
      -- The tree that the others are committed to has the same directories.
      have hdir := directory_iff_put hp.target_ne (placed p).2 (by simp [placed]) hfree
      obtain ⟨done, rest, rfl, hcommits⟩ := ih hnext
        (fun q hq => (hfor q (.tail _ hq)).congr rfl hdir)
        (fun q hq r hr => hapart q (.tail _ hq) r (.tail _ hr))
      refine ⟨p :: done, rest, rfl,
        ⟨?_, hcommits.failure_iff, hcommits.beside, ?_, ?_, hcommits.failure_eq⟩⟩
      · rw [List.map_cons, ← hcommits.written_eq]
      · rintro q (_ | ⟨_, hq⟩)
        · exact hfree
        · exact fun hlookup => hcommits.free q hq ((hdir _).mpr hlookup)
      · exact fun hclean q hq => (hdir _).mp (hcommits.blocked hclean q hq)

/-! ## Writing a batch -/

/-- The temporary files of a batch whose outputs can all be staged. -/
def temps (t : FileTree) (batch : List CompiledSource) : List Location :=
  match (stageAll t batch).1 with
  | .error _ => []
  | .ok staged => staged.map (·.2.temp)

/-- No output goes to the place of a temporary file of the batch. -/
def Apart (t : FileTree) (batch : List CompiledSource) : Prop :=
  ∀ c ∈ batch, ∀ temp ∈ temps t batch, t.locate c.output ≠ .ok temp

/-- The outputs of a batch go to different places. -/
def Distinct (t : FileTree) (batch : List CompiledSource) : Prop :=
  batch.Pairwise fun c d => t.locate c.output ≠ t.locate d.output

/-- The tree `t'` is the tree `t` with the outputs of a batch in place, and nothing else changed. -/
structure InPlace (t : FileTree) (batch : List CompiledSource) (t' : FileTree) : Prop where
  /-- The working directory is the same. -/
  cwd_eq : t'.cwd = t.cwd
  /-- Every output is where its path leads. -/
  lookup_output : ∀ c ∈ batch, ∃ loc, t.locate c.output = .ok loc ∧
    t'.lookup loc = some (.file c.code outputMode)
  /-- All else is as before. -/
  lookup_other : ∀ loc, (∀ c ∈ batch, t.locate c.output ≠ .ok loc) → t'.lookup loc = t.lookup loc

/-- The outputs of a batch that can be written: if all can be staged, those before the first whose
place is taken by a directory. -/
def writable (t : FileTree) (batch : List CompiledSource) : List CompiledSource :=
  if (stageAll t batch).1.isOk then batch.takeWhile fun c => !t.leadsToDirectory c.output else []

/-- If a batch cannot be written as a whole, and it is not for a directory after its first output,
nothing of it can be written. -/
theorem writable_eq_nil (hne : writable t batch ≠ batch)
    (htail : ∀ c ∈ batch.tail, t.leadsToDirectory c.output = false) : writable t batch = [] := by
  by_cases hstage : (stageAll t batch).1.isOk
  · rw [writable, if_pos hstage] at hne ⊢
    cases batch with
    | nil => rfl
    | cons c batch =>
      cases hc : t.leadsToDirectory c.output with
      | true => simp [hc]
      | false =>
        refine absurd (List.takeWhile_eq_self_iff.mpr ?_) hne
        rintro d (_ | ⟨_, hd⟩)
        · simp [hc]
        · simp [htail d hd]
  · rw [writable, if_neg hstage]

/-- A temporary file of a batch is beside the place that an output goes to. -/
theorem exists_temp_eq {temp : Location} (h : temp ∈ temps t batch) :
    ∃ c ∈ batch, ∃ loc number, t.locate c.output = .ok loc ∧
      temp = loc.directory ++ [tempName loc.base number] := by
  unfold temps at h
  cases hstage : stageAll t batch with
  | mk result t' =>
    rw [hstage] at h
    cases result with
    | error e => cases h
    | ok staged =>
      obtain ⟨hmap, hfor, -⟩ := stageAll_eq_ok (.refl t) hstage
      obtain ⟨p, hp, rfl⟩ := List.mem_map.mp h
      obtain ⟨number, htemp⟩ := (hfor p hp).temp_eq
      exact ⟨p.1, hmap ▸ List.mem_map_of_mem hp, p.2.target, number, (hfor p hp).locate_eq, htemp⟩

/-- A batch is written by committing all of its outputs, if they can be staged, and not at all
otherwise. -/
theorem write_cases (hapart : Apart t batch) :
    ((stageAll t batch).1.isOk = false ∧ batch ≠ [] ∧ (write t batch).written = [] ∧
      (write t batch).failure ≠ none ∧ Beside t [] (write t batch).tree) ∨
    ∃ done rest, (stageAll t batch).1.isOk ∧ batch = (done ++ rest).map Prod.fst ∧
      (∀ p ∈ done ++ rest, t.StagesFor p.1.output p.2) ∧ Commits t done rest (write t batch) := by
  unfold write
  split
  · next e t' hstage =>
    refine .inl ⟨by rw [hstage]; rfl, ?_, rfl, by simp, stageAll_eq_error (.refl t) hstage⟩
    rintro rfl
    cases hstage
  · next staged t' hstage =>
    obtain ⟨hmap, hfor, hbeside⟩ := stageAll_eq_ok (.refl t) hstage
    rw [List.append_nil] at hbeside
    have hapart' : ∀ p ∈ staged, ∀ q ∈ staged, p.2.target ≠ q.2.temp := by
      intro p hp q hq heq
      have htemps : temps t batch = staged.map (·.2.temp) := by rw [temps, hstage]
      refine hapart p.1 (hmap ▸ List.mem_map_of_mem hp) q.2.temp ?_ (heq ▸ (hfor p hp).locate_eq)
      rw [htemps]
      exact List.mem_map_of_mem hq
    obtain ⟨done, rest, rfl, hcommits⟩ := commitAll_commits hbeside hfor hapart'
    exact .inr ⟨done, rest, by rw [hstage]; rfl, hmap.symm, hfor, hcommits⟩

/-- The outputs that are reported as written come first in the batch, and there is no failure
exactly if all are. -/
theorem write_written_isPrefix (hapart : Apart t batch) :
    (write t batch).written <+: batch ∧
      ((write t batch).failure = none ↔ (write t batch).written = batch) := by
  rcases write_cases hapart with
    ⟨-, hne, hwritten, hfailure, -⟩ | ⟨done, rest, -, hbatch, -, hcommits⟩
  · rw [hwritten]
    exact ⟨List.nil_prefix, by simp [hfailure, hne.symm]⟩
  · rw [hcommits.written_eq, hcommits.failure_iff, hbatch, List.map_append]
    exact ⟨List.prefix_append _ _, by simp⟩

/-- **Writing puts the outputs in place that it reports**, and changes nothing else. -/
theorem write_inPlace (hapart : Apart t batch) (hdistinct : Distinct t batch) :
    InPlace t (write t batch).written (write t batch).tree := by
  rcases write_cases hapart with
    ⟨-, -, hwritten, -, hbeside⟩ | ⟨done, rest, -, hbatch, hfor, hcommits⟩
  · rw [hwritten]
    exact ⟨hbeside.cwd_eq, by simp, fun loc _ => hbeside.lookup_of_notMem loc (by simp)⟩
  · rw [hcommits.written_eq]
    have hfor' : ∀ p ∈ done, t.StagesFor p.1.output p.2 := fun p hp =>
      hfor p (List.mem_append_left rest hp)
    have hroot : ∀ node ∈ done.map placed, node.1 ≠ [] := by
      intro node hnode
      obtain ⟨p, hp, rfl⟩ := List.mem_map.mp hnode
      exact (hfor' p hp).target_ne
    have hnodup : ((done.map placed).map Prod.fst).Nodup := by
      rw [Distinct, hbatch, List.map_append, List.pairwise_append] at hdistinct
      rw [List.map_map, List.Nodup, List.pairwise_map]
      refine (List.pairwise_map.mp hdistinct.1).imp_of_mem fun hp hq hne heq => hne ?_
      rw [(hfor' _ hp).locate_eq, (hfor' _ hq).locate_eq]
      exact congrArg Except.ok heq
    have hlookup : ∀ loc, (write t batch).tree.lookup loc =
        (t.putAll (done.map placed)).lookup loc := fun loc =>
      hcommits.beside.lookup_of_notMem loc (by simp)
    refine ⟨hcommits.beside.cwd_eq.trans (cwd_putAll t _), ?_, ?_⟩
    · intro c hc
      obtain ⟨p, hp, rfl⟩ := List.mem_map.mp hc
      refine ⟨p.2.target, (hfor' p hp).locate_eq, (hlookup _).trans ?_⟩
      exact lookup_putAll_of_mem hroot hnodup (List.mem_map_of_mem hp)
    · intro loc hloc
      rw [hlookup]
      refine lookup_putAll_of_notMem hroot fun hmem => ?_
      rw [List.map_map] at hmem
      obtain ⟨p, hp, rfl⟩ := List.mem_map.mp hmem
      exact hloc p.1 (List.mem_map_of_mem hp) (hfor' p hp).locate_eq

/-- What is written of a batch is what can be written of it. -/
theorem write_written (hclean : t.cwd.IsClean) (hapart : Apart t batch) :
    (write t batch).written = writable t batch := by
  rcases write_cases hapart with
    ⟨hstage, -, hwritten, -, -⟩ | ⟨done, rest, hstage, hbatch, hfor, hcommits⟩
  · rw [hwritten, writable, if_neg (by simp [hstage])]
  · have hleads : ∀ p ∈ done ++ rest, t.leadsToDirectory p.1.output =
        decide (t.lookup p.2.target = some .directory) := fun p hp => by
      rw [leadsToDirectory, (hfor p hp).locate_eq]
    have hdone : ∀ c ∈ done.map Prod.fst, !t.leadsToDirectory c.output := by
      intro c hc
      obtain ⟨p, hp, rfl⟩ := List.mem_map.mp hc
      simp [hleads p (List.mem_append_left rest hp), hcommits.free p hp]
    rw [writable, if_pos hstage, hcommits.written_eq, hbatch, List.map_append,
      List.takeWhile_append_of_pos hdone]
    cases rest with
    | nil => simp
    | cons p rest =>
      have hblocked := hcommits.blocked hclean p rfl
      simp [hleads p (by simp), hblocked]

end

end Batch

end Arrowlet
