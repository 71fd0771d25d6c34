import Arrowlet.FileTree.Staging
import Arrowlet.Proofs.FileTree.Resolve

/-!
# What staged files do to a tree

`FileTree.Beside base files t` says that `t` is the tree `base` with `files` beside what it holds:
they have different locations, at which `base` has nothing. Staging adds a file to them
(`Beside.stage`), discarding takes one away (`Beside.discard`), and so does a commit, which also
puts the file into `base` (`Beside.commit`) or, where that fails, nowhere (`Beside.commit_error`). A
commit fails only if a directory is in the way (`Beside.commit_eq_ok`) or the file is gone, and then
it changes nothing (`commit_of_lookup_eq_none`).

A temporary file is beside the tree because its name is not in use. The search for such a name does
not come back to one that is, because numbers can be read back from names (`tempName_inj`) and no
number comes twice (`index_eq_of_tempName_eq`). For the same reason no temporary file ever gets a
name that another one had (`stage_index`).
-/

namespace Arrowlet

/-! ## Names of temporary files -/

namespace Bytes

/-- The number that a decimal numeral stands for. -/
def decimalValue (numeral : Bytes) : Nat :=
  Nat.ofDigitChars 10 (numeral.map fun b => Char.ofNat b.toNat) 0

theorem toNat_toUInt8_of_isDigit {c : Char} (h : c.isDigit) : c.toUInt8.toNat = c.toNat := by
  have hle : c.toNat ≤ 57 := by
    simp only [Char.isDigit, Bool.and_eq_true, decide_eq_true_eq] at h
    exact h.2
  simp only [Char.toUInt8, UInt32.toNat_toUInt8]
  exact Nat.mod_eq_of_lt (Nat.lt_of_le_of_lt hle (by decide))

/-- A number can be read back from its numeral. -/
theorem decimalValue_decimal (n : Nat) : decimalValue (decimal n) = n := by
  have hdigits : (decimal n).map (fun b => Char.ofNat b.toNat) = Nat.toDigits 10 n := by
    rw [decimal, List.map_map]
    refine (List.map_congr_left fun c hc => ?_).trans (List.map_id _)
    have hdigit := Nat.isDigit_of_mem_toDigits (by decide) (by decide) hc
    exact (congrArg Char.ofNat (toNat_toUInt8_of_isDigit hdigit)).trans (Char.ofNat_toNat c)
  rw [decimalValue, hdigits, Nat.ofDigitChars_ten_toDigits]

/-- The bytes of a numeral are digits. -/
theorem isDigit_of_mem_decimal {n : Nat} {b : UInt8} (h : b ∈ decimal n) : isDigit b := by
  obtain ⟨c, hc, rfl⟩ := List.mem_map.mp h
  have hdigit := Nat.isDigit_of_mem_toDigits (by decide) (by decide) hc
  have hval := toNat_toUInt8_of_isDigit hdigit
  simp only [Char.isDigit, Bool.and_eq_true, decide_eq_true_eq] at hdigit
  simp only [isDigit, Bool.and_eq_true, decide_eq_true_eq, UInt8.le_iff_toNat_le, hval]
  exact hdigit

end Bytes

namespace FileTree

/-- The number of a temporary file is read off its name, whatever its target is called. -/
theorem tempName_inj {base base' : Bytes} {m n : Nat}
    (h : tempName base m = tempName base' n) : m = n := by
  -- The numeral is what stands after the last byte that is no digit.
  have hnumeral : ∀ base n, (tempName base n).reverse.takeWhile Bytes.isDigit =
      (Bytes.decimal n).reverse := by
    intro base n
    have hdash : (".tmp-" : Bytes).reverse = 0x2d :: ("pmt." : Bytes) := by decide
    have hdigits : ∀ b ∈ (Bytes.decimal n).reverse, Bytes.isDigit b := fun b hb =>
      Bytes.isDigit_of_mem_decimal (List.mem_reverse.mp hb)
    rw [tempName, List.reverse_append, List.reverse_append, hdash, List.cons_append,
      List.takeWhile_append_of_pos hdigits, List.takeWhile_cons_of_neg (by decide), List.append_nil]
  have hsame := List.reverse_inj.mp ((hnumeral base m).symm.trans (h ▸ hnumeral base' n))
  rw [← Bytes.decimalValue_decimal m, hsame, Bytes.decimalValue_decimal]

/-- Names with the same number are those of one place in the order of numbers. -/
theorem index_eq_of_tempName_eq {numbers : TempNumbers} {base base' : Bytes} {i j : Nat}
    (h : tempName base (numbers.number i) = tempName base' (numbers.number j)) : i = j :=
  numbers.injective i j (tempName_inj h)

theorem length_lt_length_tempName (base : Bytes) (n : Nat) :
    base.length + 2 < (tempName base n).length := by
  have hdot : ("." : Bytes).length = 1 := by decide
  have htmp : (".tmp-" : Bytes).length = 5 := by decide
  simp only [tempName, List.length_append, hdot, htmp]
  omega

/-- A location is not that of a temporary file for it, whose name is longer. -/
theorem ne_concat_tempName (loc : Location) (n : Nat) :
    loc ≠ loc.directory ++ [tempName loc.base n] := by
  intro heq
  have hbase : loc.base = tempName loc.base n :=
    (congrArg Location.base heq).trans (List.getLastD_concat ..)
  have hlength := length_lt_length_tempName loc.base n
  rw [← hbase] at hlength
  omega

/-- The name of a temporary file ends in a digit. -/
theorem isDigit_of_getLast?_tempName {base : Bytes} {n : Nat} {b : UInt8}
    (h : (tempName base n).getLast? = some b) : Bytes.isDigit b := by
  have hne : Bytes.decimal n ≠ [] := by
    rw [Bytes.decimal, Ne, List.map_eq_nil_iff]
    exact Nat.toDigits_ne_nil
  rw [tempName, List.getLast?_append, List.getLast?_eq_some_getLast hne] at h
  cases h
  exact Bytes.isDigit_of_mem_decimal (List.getLast_mem hne)

theorem isName_tempName (base : Bytes) (n : Nat) : Location.IsName (tempName base n) := by
  have hlen := length_lt_length_tempName base n
  have hne : ∀ text : Bytes, text.length ≤ 2 → tempName base n ≠ text := by
    rintro text htext rfl
    omega
  exact ⟨hne [] (by decide), hne "." (by decide), hne ".." (by decide)⟩

section
variable {numbers : TempNumbers} {base : Bytes}

/-- The search for a number ends at a name that is not in use. -/
theorem tempName_freshIndex_notMem (numbers : TempNumbers) (base : Bytes) (used : List Bytes)
    (i : Nat) :
    tempName base (numbers.number (freshIndex numbers base used i)) ∉ used ∧
      i ≤ freshIndex numbers base used i := by
  induction used, i using freshIndex.induct numbers base with
  | case1 used i _ hmem ih =>
    rw [freshIndex, dif_pos hmem]
    refine ⟨fun hused => ?_, Nat.le_of_succ_le ih.2⟩
    refine ih.1 ((List.mem_erase_of_ne fun h => ?_).mpr hused)
    have := index_eq_of_tempName_eq h
    omega
  | case2 used i _ hmem =>
    rw [freshIndex, dif_neg hmem]
    exact ⟨hmem, Nat.le_refl i⟩

/-- All names before the end of the search are in use. -/
theorem tempName_mem_of_lt_freshIndex {used : List Bytes} {i j : Nat} (hle : i ≤ j)
    (hlt : j < freshIndex numbers base used i) : tempName base (numbers.number j) ∈ used := by
  induction used, i using freshIndex.induct numbers base with
  | case1 used i _ hmem ih =>
    rw [freshIndex, dif_pos hmem] at hlt
    rcases Nat.eq_or_lt_of_le hle with rfl | hle
    · exact hmem
    · exact List.mem_of_mem_erase (ih hle hlt)
  | case2 used i _ hmem =>
    rw [freshIndex, dif_neg hmem] at hlt
    omega

/-- The search depends only on which of the names from its start on are in use. -/
theorem freshIndex_congr {used used' : List Bytes} {i : Nat}
    (h : ∀ j, i ≤ j → (tempName base (numbers.number j) ∈ used ↔
      tempName base (numbers.number j) ∈ used')) :
    freshIndex numbers base used i = freshIndex numbers base used' i := by
  obtain ⟨hfree, hle⟩ := tempName_freshIndex_notMem numbers base used i
  obtain ⟨hfree', hle'⟩ := tempName_freshIndex_notMem numbers base used' i
  rcases Nat.lt_trichotomy (freshIndex numbers base used i) (freshIndex numbers base used' i) with
    hlt | heq | hlt
  · exact absurd ((h _ hle).mpr (tempName_mem_of_lt_freshIndex hle hlt)) hfree
  · exact heq
  · exact absurd ((h _ hle').mp (tempName_mem_of_lt_freshIndex hle' hlt)) hfree'

end

/-- A name is not in use in a directory if it names nothing there. -/
theorem notMem_names_iff {t : FileTree} {dir : Location} {name : Bytes} :
    name ∉ t.names dir ↔ t.lookup (dir ++ [name]) = none := by
  rw [lookup, if_neg (by simp), List.lookup_eq_none_iff, names, List.mem_filterMap]
  constructor
  · intro h entry hentry
    rw [bne_iff_ne]
    intro heq
    exact h ⟨entry, hentry, by simp [← heq]⟩
  · rintro h ⟨⟨loc, node⟩, hentry, hname⟩
    rcases List.eq_nil_or_concat loc with rfl | ⟨dir', name', rfl⟩
    · cases hname
    · obtain ⟨rfl, rfl⟩ : dir' = dir ∧ name' = name := by simpa using hname
      exact bne_iff_ne.mp (h _ hentry) (List.concat_eq_append ..).symm

/-! ## Files beside a tree -/

/-- The tree `t` is the tree `base` with files beside what it holds. -/
structure Beside (base : FileTree) (files : List (Location × Node)) (t : FileTree) : Prop where
  /-- The working directory is the same. -/
  cwd_eq : t.cwd = base.cwd
  /-- The numbers for temporary files are the same. -/
  numbers_eq : t.numbers = base.numbers
  /-- The files have different locations. -/
  nodup : (files.map Prod.fst).Nodup
  /-- None of them is a directory. -/
  not_directory : ∀ file ∈ files, file.2 ≠ .directory
  /-- There is nothing else where they are. -/
  fresh : ∀ file ∈ files, base.lookup file.1 = none
  /-- They are there. -/
  lookup_of_mem : ∀ file ∈ files, t.lookup file.1 = some file.2
  /-- All else is as in `base`. -/
  lookup_of_notMem : ∀ loc, loc ∉ files.map Prod.fst → t.lookup loc = base.lookup loc

section
variable {base t t' : FileTree} {files files' : List (Location × Node)} {s : Staged}

theorem Beside.refl (t : FileTree) : Beside t [] t where
  cwd_eq := rfl
  numbers_eq := rfl
  nodup := .nil
  not_directory := by simp
  fresh := by simp
  lookup_of_mem := by simp
  lookup_of_notMem _ _ := rfl

/-- The order of the files does not matter. -/
theorem Beside.perm (h : Beside base files t) (hperm : files.Perm files') :
    Beside base files' t where
  cwd_eq := h.cwd_eq
  numbers_eq := h.numbers_eq
  nodup := (hperm.map Prod.fst).nodup_iff.mp h.nodup
  not_directory file hfile := h.not_directory file (hperm.mem_iff.mpr hfile)
  fresh file hfile := h.fresh file (hperm.mem_iff.mpr hfile)
  lookup_of_mem file hfile := h.lookup_of_mem file (hperm.mem_iff.mpr hfile)
  lookup_of_notMem loc hloc :=
    h.lookup_of_notMem loc fun hmem => hloc ((hperm.map Prod.fst).mem_iff.mp hmem)

/-- Files beside a tree change none of its directories. -/
theorem Beside.directory_iff (h : Beside base files t) (loc : Location) :
    t.lookup loc = some .directory ↔ base.lookup loc = some .directory := by
  by_cases hmem : loc ∈ files.map Prod.fst
  · obtain ⟨file, hfile, rfl⟩ := List.mem_map.mp hmem
    simp [h.lookup_of_mem file hfile, h.fresh file hfile, h.not_directory file hfile]
  · rw [h.lookup_of_notMem loc hmem]

/-- Files beside a tree change no location. -/
theorem Beside.locate_eq (h : Beside base files t) (path : Bytes) :
    t.locate path = base.locate path :=
  locate_congr h.cwd_eq (h.directory_iff base.cwd) path

/-! ## Staging -/

/-- What is staged for a path: the target is where the path leads, and the temporary file is in the
same directory, which can be reached, by a name that is not too long. -/
structure StagesFor (t : FileTree) (path : Bytes) (s : Staged) : Prop where
  /-- The target is where the path leads. -/
  locate_eq : t.locate path = .ok s.target
  /-- The target is not the root. -/
  target_ne : s.target ≠ []
  /-- The temporary file has one of the names that are meant for the target. -/
  temp_eq : ∃ number, s.temp = s.target.directory ++ [tempName s.target.base number]
  /-- The directory of the temporary file can be reached. -/
  reached : ∃ dir, t.walk [] s.temp.directory = .ok dir ∧ t.lookup dir = some .directory
  /-- Its name is not too long. -/
  length_le : s.temp.base.length ≤ maxName

/-- What is staged in a tree is staged in every tree with the same directories. -/
theorem StagesFor.congr {path : Bytes} (h : t.StagesFor path s) (hcwd : t'.cwd = t.cwd)
    (hdir : ∀ loc, t'.lookup loc = some .directory ↔ t.lookup loc = some .directory) :
    t'.StagesFor path s where
  locate_eq := (locate_congr hcwd (hdir t.cwd) path).trans h.locate_eq
  target_ne := h.target_ne
  temp_eq := h.temp_eq
  reached := by
    obtain ⟨dir, hwalk, hlookup⟩ := h.reached
    exact ⟨dir, walk_congr hdir hwalk hlookup, (hdir dir).mpr hlookup⟩
  length_le := h.length_le

/-- The target of a staged file is not the temporary file. -/
theorem StagesFor.target_ne_temp {path : Bytes} (h : t.StagesFor path s) : s.target ≠ s.temp := by
  obtain ⟨number, htemp⟩ := h.temp_eq
  rw [htemp]
  exact ne_concat_tempName s.target number

/-- A file can be made where no fault is found: in a directory that can be reached, under a path and
a name that are not too long. -/
theorem createFault?_eq_none_iff {loc : Location} :
    t.createFault? loc = none ↔ pathFault? loc.text = none ∧
      (∃ dir, t.walk [] loc.directory = .ok dir ∧ t.lookup dir = some .directory) ∧
      loc.base.length ≤ maxName := by
  unfold createFault?
  constructor
  · intro h
    split at h
    · cases h
    · next hpath =>
      split at h
      · cases h
      · next dir hwalk =>
        split at h
        · cases h
        · next hdir =>
          split at h
          · cases h
          · next hlen =>
            exact ⟨hpath, ⟨dir, hwalk, Decidable.not_not.mp hdir⟩, Nat.not_lt.mp hlen⟩
  · rintro ⟨hpath, ⟨dir, hwalk, hdir⟩, hlen⟩
    simp [hpath, hwalk, hdir, hlen]

/-- Staging puts the content beside the target that the path names, under the first number that is
free. If the target is the root or no file can be made there, it changes nothing. -/
theorem stage_cases (t : FileTree) (path data : Bytes) (mode : Nat) :
    (∃ target index temp, t.locate path = .ok target ∧
      target.base.contains Bytes.slash = false ∧
      index = freshIndex t.numbers target.base (t.names target.directory) t.serial ∧
      temp = target.directory ++ [tempName target.base (t.numbers.number index)] ∧
      t.createFault? temp = none ∧
      t.stage path data mode = (.ok ⟨target, temp⟩,
        { t.put temp (.file data (mode % 0o1000)) with serial := index + 1 })) ∨
    ∃ e, t.stage path data mode = (.error e, t) := by
  unfold stage
  split
  · exact .inr ⟨_, rfl⟩
  · next target hlocate =>
    dsimp only
    split
    · exact .inr ⟨_, rfl⟩
    · next hbase =>
      split
      · exact .inr ⟨_, rfl⟩
      · next hfault =>
        exact .inl ⟨target, _, _, hlocate, Bool.eq_false_iff.mpr hbase, rfl, rfl, hfault, rfl⟩

section
variable {path data : Bytes} {mode : Nat}

/-- Staging puts the content at a location where nothing is, and changes nothing else. -/
theorem stage_eq_ok (h : t.stage path data mode = (.ok s, t')) :
    t.StagesFor path s ∧ t.lookup s.temp = none ∧ t'.cwd = t.cwd ∧ t'.numbers = t.numbers ∧
      ∀ loc, t'.lookup loc =
        if loc = s.temp then some (.file data (mode % 0o1000)) else t.lookup loc := by
  rcases t.stage_cases path data mode with
    ⟨target, index, temp, hlocate, hbase, hindex, htemp, hfault, heq⟩ | ⟨e, heq⟩
  · cases heq.symm.trans h
    have hfree :=
      (tempName_freshIndex_notMem t.numbers target.base (t.names target.directory) t.serial).1
    rw [← hindex, notMem_names_iff, ← htemp] at hfree
    obtain ⟨-, hreached, hlength⟩ := createFault?_eq_none_iff.mp hfault
    refine ⟨⟨hlocate, ?_, ⟨_, htemp⟩, hreached, hlength⟩, hfree, rfl, rfl,
      fun loc => t.lookup_put temp loc _ (by simp [htemp])⟩
    -- The root has no base that a name could be made from.
    rintro rfl
    exact absurd hbase (by decide)
  · cases heq.symm.trans h

/-- Staging takes a number that no earlier temporary file has had, and no later one will have. -/
theorem stage_index (h : t.stage path data mode = (.ok s, t')) :
    ∃ index, s.temp = s.target.directory ++ [tempName s.target.base (t.numbers.number index)] ∧
      t.serial ≤ index ∧ index < t'.serial := by
  rcases t.stage_cases path data mode with
    ⟨target, index, temp, -, -, hindex, htemp, -, heq⟩ | ⟨e, heq⟩
  · cases heq.symm.trans h
    refine ⟨index, htemp, ?_, Nat.lt_succ_self index⟩
    rw [hindex]
    exact (tempName_freshIndex_notMem ..).2
  · cases heq.symm.trans h

theorem stage_eq_error {e : FileError} (h : t.stage path data mode = (.error e, t')) : t' = t := by
  rcases t.stage_cases path data mode with ⟨_, _, _, -, -, -, -, -, heq⟩ | ⟨e', heq⟩
  · cases heq.symm.trans h
  · cases heq.symm.trans h
    rfl

/-- Staging adds a file beside a tree. -/
theorem Beside.stage (h : Beside base files t)
    (hstage : t.stage path data mode = (.ok s, t')) :
    Beside base ((s.temp, .file data (mode % 0o1000)) :: files) t' ∧ base.StagesFor path s := by
  obtain ⟨hs, hnone, hcwd, hnumbers, hlookup⟩ := stage_eq_ok hstage
  have hnotMem : s.temp ∉ files.map Prod.fst := by
    intro hmem
    obtain ⟨file, hfile, heq⟩ := List.mem_map.mp hmem
    rw [← heq, h.lookup_of_mem file hfile] at hnone
    cases hnone
  refine ⟨⟨hcwd.trans h.cwd_eq, hnumbers.trans h.numbers_eq, ?_, ?_, ?_, ?_, ?_⟩,
    hs.congr h.cwd_eq.symm fun loc => (h.directory_iff loc).symm⟩
  · exact List.nodup_cons.mpr ⟨hnotMem, h.nodup⟩
  · rintro file (_ | ⟨_, hfile⟩)
    · simp
    · exact h.not_directory file hfile
  · rintro file (_ | ⟨_, hfile⟩)
    · rw [← h.lookup_of_notMem s.temp hnotMem]
      exact hnone
    · exact h.fresh file hfile
  · rintro file (_ | ⟨_, hfile⟩)
    · rw [hlookup, if_pos rfl]
    · have hne : file.1 ≠ s.temp := fun heq => hnotMem (heq ▸ List.mem_map_of_mem hfile)
      rw [hlookup, if_neg hne]
      exact h.lookup_of_mem file hfile
  · intro loc hloc
    rw [List.map_cons, List.mem_cons, not_or] at hloc
    rw [hlookup, if_neg hloc.1]
    exact h.lookup_of_notMem loc hloc.2

end

/-! ## Discarding and committing -/

theorem lookup_root (t : FileTree) : t.lookup [] = some .directory := if_pos rfl

section
variable {node : Node}

/-- A file beside a tree is not at the root. -/
theorem Beside.temp_ne (h : Beside base ((s.temp, node) :: files) t) : s.temp ≠ [] := by
  intro hroot
  have hfresh := h.fresh _ (.head _)
  rw [hroot, lookup_root] at hfresh
  cases hfresh

/-- A file beside a tree is at none of the locations of the others. -/
theorem Beside.ne_of_mem (h : Beside base ((s.temp, node) :: files) t) :
    ∀ file ∈ files, file.1 ≠ s.temp := by
  intro file hfile heq
  have hnodup := h.nodup
  rw [List.map_cons, List.nodup_cons, ← heq] at hnodup
  exact hnodup.1 (List.mem_map.mpr ⟨file, hfile, rfl⟩)

/-- Discarding takes a file away. -/
theorem Beside.discard (h : Beside base ((s.temp, node) :: files) t) :
    Beside base files (t.discard s) where
  cwd_eq := h.cwd_eq
  numbers_eq := h.numbers_eq
  nodup := (List.nodup_cons.mp h.nodup).2
  not_directory file hfile := h.not_directory file (.tail _ hfile)
  fresh file hfile := h.fresh file (.tail _ hfile)
  lookup_of_mem file hfile := by
    rw [FileTree.discard, lookup_erase _ _ _ h.temp_ne, if_neg (h.ne_of_mem file hfile)]
    exact h.lookup_of_mem file (.tail _ hfile)
  lookup_of_notMem loc hloc := by
    rw [FileTree.discard, lookup_erase _ _ _ h.temp_ne]
    split
    · next heq =>
      rw [heq]
      exact (h.fresh _ (.head _)).symm
    · next hne => exact h.lookup_of_notMem loc (by simpa [hne] using hloc)

/-- A commit moves the temporary file onto a target that is no directory. If the file cannot be
reached or there is such a directory, it only removes the file. -/
theorem commit_cases (t : FileTree) (s : Staged) :
    (∃ node, t.lookup s.temp = some node ∧ t.lookup s.target ≠ some .directory ∧
      t.commit s = (.ok (), (t.erase s.temp).put s.target node)) ∨
    ((∀ loc, t.walk [] s.temp ≠ .ok loc) ∨ t.lookup s.temp = none ∨
      t.lookup s.target = some .directory) ∧ ∃ e, t.commit s = (.error e, t.discard s) := by
  unfold commit
  split
  · next hwalk => exact .inr ⟨.inl fun loc h => (nomatch hwalk.symm.trans h), _, rfl⟩
  · split
    · next htemp => exact .inr ⟨.inr (.inl htemp), _, rfl⟩
    · next hdir => exact .inr ⟨.inr (.inr hdir), _, rfl⟩
    · next _ _ node htemp hdir => exact .inl ⟨node, htemp, hdir, rfl⟩

/-- A commit takes no number. -/
theorem serial_of_commit {r : Except FileError Unit} (h : t.commit s = (r, t')) :
    t'.serial = t.serial := by
  rcases t.commit_cases s with ⟨node, -, -, heq⟩ | ⟨-, e, heq⟩
  · cases heq.symm.trans h
    rfl
  · cases heq.symm.trans h
    rfl

/-- A commit that fails removes the temporary file and nothing else. -/
theorem commit_eq_error {e : FileError} (h : t.commit s = (.error e, t')) : t' = t.discard s := by
  rcases t.commit_cases s with ⟨node, -, -, heq⟩ | ⟨-, e', heq⟩
  · cases heq.symm.trans h
  · cases heq.symm.trans h
    rfl

/-- A commit that succeeds puts a file that was beside a tree into it, and no directory gives way to
it. -/
theorem Beside.commit (h : Beside base ((s.temp, node) :: files) t) (htarget : s.target ≠ [])
    (hbeside : s.target ∉ ((s.temp, node) :: files).map Prod.fst)
    (hcommit : t.commit s = (.ok (), t')) :
    base.lookup s.target ≠ some .directory ∧ Beside (base.put s.target node) files t' := by
  rcases t.commit_cases s with ⟨node', htemp, hdir, heq⟩ | ⟨-, e, heq⟩
  · rw [h.lookup_of_mem _ (.head _)] at htemp
    cases htemp
    rw [heq] at hcommit
    cases hcommit
    have hlookup : ∀ loc, ((t.erase s.temp).put s.target node).lookup loc =
        if loc = s.target then some node else if loc = s.temp then none else t.lookup loc := by
      intro loc
      rw [lookup_put _ _ _ _ htarget, lookup_erase _ _ _ h.temp_ne]
    have hne : ∀ file ∈ files, file.1 ≠ s.target := fun file hfile heq =>
      hbeside (heq ▸ List.mem_map_of_mem (.tail _ hfile))
    refine ⟨fun hbase => hdir ((h.directory_iff _).mpr hbase),
      ⟨h.cwd_eq, h.numbers_eq, ?_, ?_, ?_, ?_, ?_⟩⟩
    · exact (List.nodup_cons.mp h.nodup).2
    · exact fun file hfile => h.not_directory file (.tail _ hfile)
    · intro file hfile
      rw [lookup_put _ _ _ _ htarget, if_neg (hne file hfile)]
      exact h.fresh file (.tail _ hfile)
    · intro file hfile
      rw [hlookup, if_neg (hne file hfile), if_neg (h.ne_of_mem file hfile)]
      exact h.lookup_of_mem file (.tail _ hfile)
    · intro loc hloc
      rw [hlookup, lookup_put _ _ _ _ htarget]
      split
      · rfl
      · split
        · next heq =>
          rw [heq]
          exact (h.fresh _ (.head _)).symm
        · next hne => exact h.lookup_of_notMem loc (by simpa [hne] using hloc)
  · rw [heq] at hcommit
    cases hcommit

/-- A commit that fails takes the file away. -/
theorem Beside.commit_error {e : FileError} (h : Beside base ((s.temp, node) :: files) t)
    (hcommit : t.commit s = (.error e, t')) : Beside base files t' := by
  rw [commit_eq_error hcommit]
  exact h.discard

/-- The temporary file of what is staged can be reached. -/
theorem Beside.walk_temp {path : Bytes} (h : Beside base ((s.temp, node) :: files) t)
    (hs : base.StagesFor path s) (hclean : base.cwd.IsClean) :
    t.walk [] s.temp = .ok s.temp := by
  obtain ⟨number, htemp⟩ := hs.temp_eq
  have hdirectory : s.temp.directory = s.target.directory := by simp [htemp, Location.directory]
  obtain ⟨dir, hwalk, hlookup⟩ := hs.reached
  -- The way to the directory has no turns, so that it ends where it says.
  have hend : dir = s.target.directory := by
    have hcleanDir := (isClean_of_locate hclean hs.locate_eq).directory
    rw [hdirectory] at hwalk
    rw [← foldl_enter_of_walk hwalk, Location.foldl_enter_of_isClean hcleanDir, List.nil_append]
  subst hend
  have hwalk' := walk_congr h.directory_iff hwalk hlookup
  rw [hdirectory] at hwalk'
  rw [htemp]
  refine walk_concat_eq_ok_iff.mpr ⟨_, hwalk', step_eq_ok_iff.mpr ⟨?_, ?_, ?_, ?_⟩⟩
  · exact (h.directory_iff _).mpr hlookup
  · simpa [htemp, Location.base] using hs.length_le
  · exact (Location.enter_of_isName (isName_tempName ..)).symm
  · rw [← htemp, h.lookup_of_mem _ (.head _)]
    rfl

/-- What is staged can be committed, unless a directory is where it is to go. -/
theorem Beside.commit_eq_ok {path : Bytes} (h : Beside base ((s.temp, node) :: files) t)
    (hs : base.StagesFor path s) (hclean : base.cwd.IsClean)
    (hdir : base.lookup s.target ≠ some .directory) : ∃ t', t.commit s = (.ok (), t') := by
  rcases t.commit_cases s with ⟨_, _, _, heq⟩ | ⟨hwalk | hnone | hdir', -⟩
  · exact ⟨_, heq⟩
  · exact absurd (h.walk_temp hs hclean) (hwalk _)
  · rw [h.lookup_of_mem _ (.head _)] at hnone
    cases hnone
  · exact absurd ((h.directory_iff _).mp hdir') hdir

/-- Where a directory is in the way, a commit fails because of that. -/
theorem Beside.commit_of_directory {path : Bytes} (h : Beside base ((s.temp, node) :: files) t)
    (hs : base.StagesFor path s) (hclean : base.cwd.IsClean)
    (hdir : base.lookup s.target = some .directory) :
    t.commit s =
      (.error (.cannotRename s.temp.text s.target.text .alreadyExists), t.discard s) := by
  simp only [FileTree.commit, h.walk_temp hs hclean, h.lookup_of_mem _ (.head _),
    (h.directory_iff _).mpr hdir]

end

/-! ## Calls that change nothing -/

/-- To remove what is not there changes nothing. -/
theorem erase_eq_self {loc : Location} (h : t.lookup loc = none) : t.erase loc = t := by
  have hentries : t.entries.filter (·.1 ≠ loc) = t.entries := by
    rw [List.filter_eq_self]
    intro entry hentry
    rw [lookup] at h
    split at h
    · cases h
    · have hne := List.lookup_eq_none_iff.mp h entry hentry
      exact decide_eq_true (bne_iff_ne.mp hne).symm
  rw [erase, hentries]

/-- To commit a file that is gone fails and changes nothing. -/
theorem commit_of_lookup_eq_none (h : t.lookup s.temp = none) :
    ∃ e, t.commit s = (.error e, t) := by
  rcases t.commit_cases s with ⟨node, htemp, -, -⟩ | ⟨-, e, heq⟩
  · rw [h] at htemp
    cases htemp
  · rw [discard, erase_eq_self h] at heq
    exact ⟨e, heq⟩

/-! ## Writing in one step -/

section
variable {path data : Bytes} {mode : Nat}

/-- A write that succeeds stages a file and commits it. -/
theorem writeAtomic_eq_ok (h : t.writeAtomic path data mode = (.ok (), t')) :
    ∃ s t₁, t.stage path data mode = (.ok s, t₁) ∧ t₁.commit s = (.ok (), t') := by
  rw [writeAtomic] at h
  split at h
  · cases h
  · next s t₁ hstage => exact ⟨s, t₁, hstage, h⟩

/-- A write that fails takes its temporary file away again. -/
theorem Beside.writeAtomic_error {e : FileError} (hbeside : Beside base files t)
    (h : t.writeAtomic path data mode = (.error e, t')) :
    Beside base files t' ∧ t.serial ≤ t'.serial := by
  rw [writeAtomic] at h
  split at h
  · next hstage =>
    cases h
    rw [stage_eq_error hstage]
    exact ⟨hbeside, Nat.le_refl _⟩
  · next s t₁ hstage =>
    obtain ⟨index, -, hle, hlt⟩ := stage_index hstage
    rw [serial_of_commit h]
    exact ⟨(hbeside.stage hstage).1.commit_error h, Nat.le_of_lt (Nat.lt_of_le_of_lt hle hlt)⟩

end

end

end FileTree

end Arrowlet
