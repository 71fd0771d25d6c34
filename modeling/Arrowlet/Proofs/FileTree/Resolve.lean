import Arrowlet.FileTree.Resolve
import Arrowlet.Proofs.Except
import Arrowlet.Proofs.Text.Lines

/-!
# The two ways that a path leads

A path leads somewhere by its spelling (`FileTree.locate`), and through the directories of a tree
(`FileTree.resolve`). Without links both ways take the same turns, so that they end at the same
place wherever the second one arrives (`FileTree.locate_of_resolve`). What can be walked to a
directory depends on the directories of a tree alone (`FileTree.walk_congr`).
-/

namespace Arrowlet

/-! ## Pieces of a text -/

namespace Bytes

/-- A byte at the end of a text that is no separator ends the last piece. -/
theorem exists_splitOn_concat {sep b : UInt8} (hb : b ≠ sep) (text : Bytes) :
    ∃ pieces piece, splitOn sep (text ++ [b]) = pieces ++ [piece ++ [b]] := by
  induction text with
  | nil => exact ⟨[], [], by simp [splitOn, hb]⟩
  | cons c rest ih =>
    obtain ⟨pieces, piece, heq⟩ := ih
    rw [List.cons_append, splitOn, heq]
    split
    · exact ⟨[] :: pieces, piece, rfl⟩
    · cases pieces with
      | nil => exact ⟨[], c :: piece, rfl⟩
      | cons first pieces => exact ⟨(c :: first) :: pieces, piece, rfl⟩

end Bytes

/-! ## Clean locations -/

namespace Location

/-- A name that is no instruction to stay or to go up. -/
def IsName (element : Bytes) : Prop :=
  element ≠ [] ∧ element ≠ ("." : Bytes) ∧ element ≠ (".." : Bytes)

/-- A location all of whose elements are names. -/
def IsClean (loc : Location) : Prop := ∀ element ∈ loc, IsName element

section
variable {loc : Location} {element : Bytes}

theorem enter_of_isName (h : IsName element) : loc.enter element = loc ++ [element] := by
  rw [enter, if_neg (by simp [h.1, h.2.1]), if_neg h.2.2]

theorem foldl_enter_of_isClean {way : List Bytes} (h : IsClean way) :
    way.foldl enter loc = loc ++ way := by
  induction way generalizing loc with
  | nil => simp
  | cons element way ih =>
    rw [List.foldl_cons, enter_of_isName (h element (by simp)),
      ih fun other hother => h other (by simp [hother])]
    simp

theorem IsClean.append {loc' : Location} (h : IsClean loc) (h' : IsClean loc') :
    IsClean (loc ++ loc') := by
  intro element hmem
  rcases List.mem_append.mp hmem with hmem | hmem
  · exact h element hmem
  · exact h' element hmem

theorem IsClean.directory (h : IsClean loc) : IsClean loc.directory :=
  fun element hmem => h element (List.dropLast_subset loc hmem)

theorem IsClean.enter (h : IsClean loc) (element : Bytes) : IsClean (loc.enter element) := by
  unfold Location.enter
  split
  · exact h
  · next hstay =>
    split
    · exact h.directory
    · next hup =>
      rw [not_or] at hstay
      exact h.append (by simpa [IsClean] using ⟨hstay.1, hstay.2, hup⟩)

/-- Following a path from a clean location ends at a clean location. -/
theorem IsClean.follow (h : IsClean loc) (path : Bytes) : IsClean (loc.follow path) := by
  unfold Location.follow
  induction path.splitOn Bytes.slash generalizing loc with
  | nil => exact h
  | cons element way ih => exact ih (h.enter element)

/-- A path whose last byte is neither a slash nor a dot leads to a name that ends in this byte. -/
theorem follow_concat {b : UInt8} (hslash : b ≠ Bytes.slash) (hdot : b ≠ Bytes.dot) (path : Bytes) :
    ∃ dir name, loc.follow (path ++ [b]) = dir ++ [name ++ [b]] := by
  obtain ⟨pieces, piece, heq⟩ := Bytes.exists_splitOn_concat hslash path
  have hname : IsName (piece ++ [b]) := by
    -- `.` and `..` end in a dot.
    have hne : ∀ init : Bytes, piece ++ [b] ≠ init ++ [Bytes.dot] := by
      intro init h
      cases (List.append_inj' h rfl).2
      exact hdot rfl
    exact ⟨by simp, hne [], hne [Bytes.dot]⟩
  refine ⟨pieces.foldl Location.enter loc, piece, ?_⟩
  rw [Location.follow, heq, List.foldl_append, List.foldl_cons, List.foldl_nil,
    enter_of_isName hname]

end

end Location

/-! ## Walking through a tree -/

namespace FileTree

section
variable {t t' : FileTree} {loc next : Location} {way : List Bytes}

/-- A step goes from a directory to something in it, by a name that is not too long. -/
theorem step_eq_ok_iff {element : Bytes} :
    t.step loc element = .ok next ↔
      t.lookup loc = some .directory ∧ element.length ≤ maxName ∧ next = loc.enter element ∧
        (t.lookup next).isSome := by
  unfold step
  constructor
  · intro h
    split at h
    · cases h
    · cases h
    · next hloc =>
      split at h
      · cases h
      · next hlen =>
        dsimp only at h
        split at h
        · next hnext =>
          cases h
          exact ⟨hloc, Nat.not_lt.mp hlen, rfl, hnext⟩
        · cases h
  · rintro ⟨hloc, hlen, rfl, hnext⟩
    simp only [hloc, Nat.not_lt.mpr hlen, hnext, if_true, if_false]

theorem walk_cons_eq_ok_iff {element : Bytes} :
    t.walk loc (element :: way) = .ok next ↔
      ∃ mid, t.step loc element = .ok mid ∧ t.walk mid way = .ok next := by
  rw [walk, List.foldlM_cons, bind_eq_ok_iff]
  rfl

theorem walk_concat_eq_ok_iff {element : Bytes} :
    t.walk loc (way ++ [element]) = .ok next ↔
      ∃ mid, t.walk loc way = .ok mid ∧ t.step mid element = .ok next := by
  rw [walk, List.foldlM_append, bind_eq_ok_iff]
  simp only [List.foldlM_cons, List.foldlM_nil, bind_pure]
  rfl

/-- A walk turns as the spelling of its way does. -/
theorem foldl_enter_of_walk (h : t.walk loc way = .ok next) :
    way.foldl Location.enter loc = next := by
  induction way generalizing loc with
  | nil =>
    cases h
    rfl
  | cons element way ih =>
    obtain ⟨mid, hstep, hwalk⟩ := walk_cons_eq_ok_iff.mp h
    obtain ⟨-, -, rfl, -⟩ := step_eq_ok_iff.mp hstep
    exact ih hwalk

/-- A walk to a directory starts from one. -/
theorem lookup_start_of_walk (h : t.walk loc way = .ok next)
    (hnext : t.lookup next = some .directory) : t.lookup loc = some .directory := by
  cases way with
  | nil =>
    cases h
    exact hnext
  | cons element way =>
    obtain ⟨mid, hstep, -⟩ := walk_cons_eq_ok_iff.mp h
    exact (step_eq_ok_iff.mp hstep).1

/-- What leads to a directory leads there in every tree with the same directories. -/
theorem walk_congr
    (hdir : ∀ loc, t'.lookup loc = some .directory ↔ t.lookup loc = some .directory)
    (h : t.walk loc way = .ok next) (hnext : t.lookup next = some .directory) :
    t'.walk loc way = .ok next := by
  induction way generalizing loc with
  | nil => exact h
  | cons element way ih =>
    obtain ⟨mid, hstep, hwalk⟩ := walk_cons_eq_ok_iff.mp h
    obtain ⟨hloc, hlen, hmid, -⟩ := step_eq_ok_iff.mp hstep
    have hmid' := (hdir mid).mpr (lookup_start_of_walk hwalk hnext)
    refine walk_cons_eq_ok_iff.mpr ⟨mid, step_eq_ok_iff.mpr ?_, ih hwalk⟩
    exact ⟨(hdir loc).mpr hloc, hlen, hmid, by simp [hmid']⟩

/-- Locations depend on the working directory alone, and on whether it is there. -/
theorem locate_congr (hcwd : t'.cwd = t.cwd)
    (hdir : t'.lookup t.cwd = some .directory ↔ t.lookup t.cwd = some .directory) (path : Bytes) :
    t'.locate path = t.locate path := by
  simp only [locate, hcwd, hdir]

/-- Every path leads somewhere if the working directory is there. -/
theorem exists_locate_eq_ok (hcwd : t.lookup t.cwd = some .directory) (path : Bytes) :
    ∃ loc, t.locate path = .ok loc := by
  rw [locate, if_pos hcwd]
  split
  · exact ⟨_, rfl⟩
  · exact ⟨_, rfl⟩

/-- Where the system finds something by a path, the spelling of the path leads too. -/
theorem locate_of_resolve {path : Bytes} (h : t.resolve path = .ok loc) :
    t.locate path = .ok loc := by
  unfold resolve at h
  split at h
  · cases h
  · have hfollow := foldl_enter_of_walk h
    unfold locate
    split
    · next habs =>
      rw [if_pos habs] at hfollow
      exact congrArg Except.ok hfollow
    · next habs =>
      rw [if_neg habs] at hfollow h
      -- The working directory is there, because the walk takes at least one step from it.
      have hcwd : t.lookup t.cwd = some .directory := by
        cases hway : path.splitOn Bytes.slash with
        | nil =>
          rw [Bytes.splitOn_eq_splitOn] at hway
          exact absurd hway (List.splitOn_ne_nil _ path)
        | cons element way =>
          rw [hway] at h
          obtain ⟨mid, hstep, -⟩ := walk_cons_eq_ok_iff.mp h
          exact (step_eq_ok_iff.mp hstep).1
      rw [if_pos hcwd]
      exact congrArg Except.ok hfollow

/-- What is read is the content of a file that the system finds. -/
theorem read_eq_ok_iff {path data : Bytes} :
    t.read path = .ok data ↔
      ∃ loc mode, t.resolve path = .ok loc ∧ t.lookup loc = some (.file data mode) := by
  unfold read
  cases hresolve : t.resolve path with
  | error fault => simp
  | ok loc =>
    cases hloc : t.lookup loc with
    | none => simp [hloc]
    | some node => cases node <;> simp [hloc]

/-- A location that a path leads to from a clean working directory is clean. -/
theorem isClean_of_locate {path : Bytes} (hcwd : t.cwd.IsClean) (h : t.locate path = .ok loc) :
    loc.IsClean := by
  unfold locate at h
  split at h
  · cases h
    exact Location.IsClean.follow (fun _ hmem => absurd hmem List.not_mem_nil) path
  · split at h
    · cases h
      exact hcwd.follow path
    · cases h

end

end FileTree

end Arrowlet
