import Arrowlet.Proofs.FileTree.Staging

/-!
# What can be staged

Whether content can be staged for a path is told by the directories of a tree and by the number that
the temporary file gets, which makes its name longer or shorter (`FileTree.canStage`). The number is
the first one whose name is not in use (`FileTree.tempIndex`). Files that have been staged before
change neither: they are no directories (`FileTree.Beside.canStage_eq`), and they have numbers that
have been passed (`FileTree.Beside.tempIndex_eq`).
-/

namespace Arrowlet

namespace FileTree

/-- Whether content can be staged for a path under a number: the path leads to a place other than
the root, which is the one whose name has a slash, and a file can be made beside it. -/
def canStage (t : FileTree) (path : Bytes) (number : Nat) : Bool :=
  match t.locate path with
  | .error _ => false
  | .ok target => !target.base.contains Bytes.slash &&
      (t.createFault? (target.directory ++ [tempName target.base number])).isNone

/-- The index of the number of the temporary file for a path: the first one from `serial` on whose
name is free. -/
def tempIndex (t : FileTree) (path : Bytes) (serial : Nat) : Nat :=
  match t.locate path with
  | .error _ => serial
  | .ok target => freshIndex t.numbers target.base (t.names target.directory) serial

section
variable {base t : FileTree} {files : List (Location × Node)} {path data : Bytes} {mode : Nat}

theorem canStage_iff {number : Nat} :
    t.canStage path number ↔ ∃ target, t.locate path = .ok target ∧
      target.base.contains Bytes.slash = false ∧
      t.createFault? (target.directory ++ [tempName target.base number]) = none := by
  unfold canStage
  cases t.locate path with
  | error e => simp
  | ok target => simp

theorem tempIndex_of_locate {target : Location} (h : t.locate path = .ok target) (serial : Nat) :
    t.tempIndex path serial =
      freshIndex t.numbers target.base (t.names target.directory) serial := by
  rw [tempIndex, h]

/-- What can be staged is staged. -/
theorem exists_stage_eq_ok
    (h : t.canStage path (t.numbers.number (t.tempIndex path t.serial))) (data : Bytes)
    (mode : Nat) : ∃ s t', t.stage path data mode = (.ok s, t') := by
  obtain ⟨target, hlocate, hbase, hfault⟩ := canStage_iff.mp h
  rw [tempIndex_of_locate hlocate] at hfault
  simp only [stage, hlocate, hbase, hfault]
  exact ⟨_, _, rfl⟩

/-- What is staged can be staged, and the number of its temporary file is not used again. -/
theorem canStage_of_stage {s : Staged} {t' : FileTree}
    (h : t.stage path data mode = (.ok s, t')) :
    t.canStage path (t.numbers.number (t.tempIndex path t.serial)) ∧
      t'.serial = t.tempIndex path t.serial + 1 := by
  rcases t.stage_cases path data mode with
    ⟨target, index, temp, hlocate, hbase, rfl, rfl, hfault, heq⟩ | ⟨e, heq⟩
  · cases heq.symm.trans h
    rw [tempIndex_of_locate hlocate]
    exact ⟨canStage_iff.mpr ⟨target, hlocate, hbase, hfault⟩, rfl⟩
  · cases heq.symm.trans h

/-! ## Files beside a tree -/

/-- Files beside a tree do not change what can be staged. -/
theorem Beside.canStage_eq (h : Beside base files t) (path : Bytes) (number : Nat) :
    t.canStage path number = base.canStage path number := by
  have hreach : ∀ way dir, t.walk [] way = .ok dir ∧ t.lookup dir = some .directory ↔
      base.walk [] way = .ok dir ∧ base.lookup dir = some .directory := by
    intro way dir
    rw [h.directory_iff]
    constructor
    · rintro ⟨hwalk, hdir⟩
      have hdir' := (h.directory_iff dir).mpr hdir
      exact ⟨walk_congr (fun loc => (h.directory_iff loc).symm) hwalk hdir', hdir⟩
    · rintro ⟨hwalk, hdir⟩
      exact ⟨walk_congr h.directory_iff hwalk hdir, hdir⟩
  rw [Bool.eq_iff_iff]
  simp only [canStage_iff, createFault?_eq_none_iff, h.locate_eq, hreach]

/-- A location is that of a temporary file with one of the first `serial` numbers. -/
def IsTempBelow (numbers : TempNumbers) (serial : Nat) (loc : Location) : Prop :=
  ∃ dir name index, loc = dir ++ [tempName name (numbers.number index)] ∧ index < serial

theorem IsTempBelow.mono {numbers : TempNumbers} {serial serial' : Nat} {loc : Location}
    (h : IsTempBelow numbers serial loc) (hle : serial ≤ serial') :
    IsTempBelow numbers serial' loc := by
  obtain ⟨dir, name, index, hloc, hlt⟩ := h
  exact ⟨dir, name, index, hloc, Nat.lt_of_lt_of_le hlt hle⟩

/-- Temporary files beside a tree whose numbers have been passed do not change the number of the
next one. -/
theorem Beside.tempIndex_eq (h : Beside base files t) {serial : Nat}
    (hbelow : ∀ file ∈ files, IsTempBelow base.numbers serial file.1) (path : Bytes) :
    t.tempIndex path serial = base.tempIndex path serial := by
  unfold tempIndex
  rw [h.locate_eq, h.numbers_eq]
  split
  · rfl
  · next target hlocate =>
    refine freshIndex_congr fun j hj => ?_
    rw [← Decidable.not_iff_not, notMem_names_iff, notMem_names_iff, h.lookup_of_notMem]
    intro hmem
    obtain ⟨file, hfile, heq⟩ := List.mem_map.mp hmem
    obtain ⟨dir, name, index, hloc, hlt⟩ := hbelow file hfile
    have hname : [tempName name (base.numbers.number index)] =
        [tempName target.base (base.numbers.number j)] :=
      (List.append_inj' (hloc.symm.trans heq) rfl).2
    have hindex := index_eq_of_tempName_eq (List.singleton_inj.mp hname)
    omega

/-- The tree `t` is `base` with temporary files beside it whose numbers have been passed. -/
def HasTemps (base t : FileTree) : Prop :=
  ∃ files, Beside base files t ∧ ∀ file ∈ files, IsTempBelow base.numbers t.serial file.1

theorem HasTemps.refl (t : FileTree) : HasTemps t t := ⟨[], .refl t, by simp⟩

/-- What can be staged in a tree is staged with temporary files beside it, and is one of them. -/
theorem HasTemps.stage (h : HasTemps base t)
    (hcan : base.canStage path (base.numbers.number (base.tempIndex path t.serial)))
    (data : Bytes) (mode : Nat) :
    ∃ s t', t.stage path data mode = (.ok s, t') ∧ HasTemps base t' ∧
      t'.serial = base.tempIndex path t.serial + 1 := by
  obtain ⟨files, hbeside, hbelow⟩ := h
  rw [← hbeside.canStage_eq, ← hbeside.numbers_eq, ← hbeside.tempIndex_eq hbelow] at hcan
  obtain ⟨s, t', hstage⟩ := exists_stage_eq_ok hcan data mode
  obtain ⟨index, htemp, hle, hlt⟩ := stage_index hstage
  rw [hbeside.numbers_eq] at htemp
  refine ⟨s, t', hstage, ⟨_, (hbeside.stage hstage).1, ?_⟩, ?_⟩
  · rintro file (_ | ⟨_, hfile⟩)
    · exact ⟨_, _, index, htemp, hlt⟩
    · exact (hbelow file hfile).mono (by omega)
  · rw [(canStage_of_stage hstage).2, hbeside.tempIndex_eq hbelow]

/-- What cannot be staged in a tree is not staged with temporary files beside it either. -/
theorem HasTemps.stage_eq_error (h : HasTemps base t)
    (hcan : ¬ base.canStage path (base.numbers.number (base.tempIndex path t.serial)))
    (data : Bytes) (mode : Nat) : ∃ cause, t.stage path data mode = (.error cause, t) := by
  obtain ⟨files, hbeside, hbelow⟩ := h
  rw [← hbeside.canStage_eq, ← hbeside.numbers_eq, ← hbeside.tempIndex_eq hbelow] at hcan
  cases hstage : t.stage path data mode with
  | mk result t' =>
    cases result with
    | ok s => exact absurd (canStage_of_stage hstage).1 hcan
    | error cause => exact ⟨cause, by rw [FileTree.stage_eq_error hstage]⟩

end

end FileTree

end Arrowlet
