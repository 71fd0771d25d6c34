import Arrowlet.Path
import Arrowlet.Proofs.Text.Lines
import Arrowlet.Proofs.Token.Spelling

/-!
# Replacing the extension of a path

A path is cut after its last slash into a directory and a last element (`Path.Cut`), and the stem of
an element is what its extension is taken off (`Path.IsStem`). Both are said without the functions
that find them, and both are unique: `Path.Cut.unique`, `Path.IsStem.unique`.

An extension is looked for from the end of a path on, and cut off unless it is all that the last
element has. What is left is the directory with the stem (`Path.replaceExtension_eq`), so that
nothing of a path counts but these two.

With them, `Path.replaceExtension_changes_extension_only` says what replacing an extension does: the
directory and the stem stay, a second replacement changes nothing, and the paths that stay as they
are are those that have the extension already. The element must not be empty for the second
statement: the stem would be empty too, and a name that is only an extension is kept as a stem.
-/

namespace Arrowlet

open Bytes

namespace Path

/-- Read from its end, a text without `sep` is a run of other bytes. -/
theorem ne_of_mem_reverse {sep : UInt8} {w : Bytes} (h : sep ∉ w) :
    ∀ b ∈ w.reverse, decide (b ≠ sep) := by
  intro b hb
  rw [decide_eq_true_eq]
  exact ne_of_mem_of_not_mem (List.mem_reverse.mp hb) h

/-! ## Cutting a path -/

/-- The path up to and with its last slash. -/
def directoryPart (path : Bytes) : Bytes := path.trimRight (· ≠ slash)

/-- The path after its last slash. -/
def lastElement (path : Bytes) : Bytes := (path.reverse.takeWhile (· ≠ slash)).reverse

/-- The path is a directory, which is empty or ends with a slash, and an element without one. -/
structure Cut (path dir element : Bytes) : Prop where
  path_eq : path = dir ++ element
  dir_end : ∀ b ∈ dir.getLast?, b = slash
  slash_notMem : slash ∉ element

section
variable {path dir element : Bytes}

/-- A path is cut where its last slash is found. -/
theorem Cut.parts_eq (h : Cut path dir element) :
    directoryPart path = dir ∧ lastElement path = element := by
  have hreverse : path.reverse = element.reverse ++ dir.reverse := by
    rw [h.path_eq, List.reverse_append]
  have helement := ne_of_mem_reverse h.slash_notMem
  have hdir : ∀ b ∈ dir.reverse.head?, ¬ decide (b ≠ slash) := by
    intro b hb
    rw [List.head?_reverse] at hb
    simpa using h.dir_end b hb
  constructor
  · rw [directoryPart, trimRight, hreverse, Lexeme.dropWhile_append_of_boundary helement hdir,
      List.reverse_reverse]
  · rw [lastElement, hreverse, Lexeme.takeWhile_append_of_boundary helement hdir,
      List.reverse_reverse]

/-- A path is cut in one way only. -/
theorem Cut.unique {dir' element' : Bytes} (h : Cut path dir element)
    (h' : Cut path dir' element') : dir = dir' ∧ element = element' := by
  obtain ⟨hdir, helement⟩ := h.parts_eq
  obtain ⟨hdir', helement'⟩ := h'.parts_eq
  exact ⟨hdir.symm.trans hdir', helement.symm.trans helement'⟩

/-- Every path can be cut. -/
theorem exists_cut (path : Bytes) : ∃ dir element, Cut path dir element := by
  obtain ⟨element, hpath, helement, hdir⟩ := exists_eq_trimRight_append (· ≠ slash) path
  refine ⟨_, element, hpath, fun b hb => ?_, fun hmem => ?_⟩
  · simpa using hdir b hb
  · simpa using helement slash hmem

end

/-! ## Stems -/

/-- The element without its extension, which is its last dot and what follows. A dot at the very
beginning starts no extension. -/
def stem (element : Bytes) : Bytes :=
  match element.reverse.dropWhile (· ≠ dot) with
  | [] => element
  | _ :: before => if before = [] then element else before.reverse

/-- What is left of an element without its extension: what stands before the last dot, unless that
is nothing. An element without a dot, or with no dot but the first byte, has no extension. -/
inductive IsStem : (element stem : Bytes) → Prop
  | beforeDot {stem suffix : Bytes} (hstem : stem ≠ []) (hsuffix : dot ∉ suffix) :
      IsStem (stem ++ dot :: suffix) stem
  | noDot {element : Bytes} (h : dot ∉ element) : IsStem element element
  | firstDot {rest : Bytes} (h : dot ∉ rest) : IsStem (dot :: rest) (dot :: rest)

section
variable {element w : Bytes}

/-- Reading an element from its end stops at the last dot. -/
theorem dropWhile_reverse_of_dot {stem suffix : Bytes} (h : dot ∉ suffix) :
    (stem ++ dot :: suffix).reverse.dropWhile (· ≠ dot) = dot :: stem.reverse := by
  have hreverse : (stem ++ dot :: suffix).reverse = suffix.reverse ++ dot :: stem.reverse := by simp
  rw [hreverse, Lexeme.dropWhile_append_of_boundary (ne_of_mem_reverse h) (by simp)]

theorem IsStem.stem_eq (h : IsStem element w) : stem element = w := by
  cases h with
  | beforeDot hstem hsuffix =>
    rw [stem, dropWhile_reverse_of_dot hsuffix]
    simp [hstem]
  | noDot h =>
    have hnone : element.reverse.dropWhile (· ≠ dot) = [] := by
      rw [← List.append_nil element.reverse,
        Lexeme.dropWhile_append_of_boundary (ne_of_mem_reverse h) (by simp)]
    rw [stem, hnone]
  | @firstDot rest h =>
    have hfirst : ([] ++ dot :: rest).reverse.dropWhile (· ≠ dot) = [dot] :=
      dropWhile_reverse_of_dot h
    rw [List.nil_append] at hfirst
    rw [stem, hfirst]
    rfl

/-- An element has one stem only. -/
theorem IsStem.unique {w' : Bytes} (h : IsStem element w) (h' : IsStem element w') : w = w' :=
  h.stem_eq.symm.trans h'.stem_eq

/-- Every element has a stem. -/
theorem exists_isStem (element : Bytes) : ∃ w, IsStem element w := by
  obtain ⟨suffix, helement, hsuffix, hlast⟩ := exists_eq_trimRight_append (· ≠ dot) element
  have hsuffix : dot ∉ suffix := fun hmem => by simpa using hsuffix dot hmem
  generalize trimRight (· ≠ dot) element = front at helement hlast
  cases hend : front.getLast? with
  | none =>
    rw [List.getLast?_eq_none_iff.mp hend, List.nil_append] at helement
    exact ⟨element, .noDot (helement ▸ hsuffix)⟩
  | some b =>
    obtain rfl : b = dot := by simpa using hlast b hend
    obtain ⟨w, rfl⟩ := List.getLast?_eq_some_iff.mp hend
    rw [List.append_assoc, List.singleton_append] at helement
    subst helement
    by_cases hw : w = []
    · subst hw
      exact ⟨_, .firstDot hsuffix⟩
    · exact ⟨w, .beforeDot hw hsuffix⟩

/-- Only the empty element has an empty stem. -/
theorem IsStem.ne_nil (h : IsStem element w) (helement : element ≠ []) : w ≠ [] := by
  cases h with
  | beforeDot hstem _ => exact hstem
  | noDot | firstDot => exact helement

/-- A stem is a part of its element. -/
theorem IsStem.subset (h : IsStem element w) : w ⊆ element := by
  cases h with
  | beforeDot => exact List.subset_append_left _ _
  | noDot | firstDot => exact List.Subset.refl _

end

/-! ## Finding extensions -/

section
variable {path dir element : Bytes}

/-- The way back to an extension leads over bytes that are neither dots nor slashes. -/
theorem findExtension_append {w : Bytes} (hdot : dot ∉ w) (hslash : slash ∉ w)
    (before passed : Bytes) :
    findExtension (w ++ before) passed = findExtension before (w.reverse ++ passed) := by
  induction w generalizing passed with
  | nil => rfl
  | cons b w ih =>
    rw [List.mem_cons, not_or] at hdot hslash
    rw [List.cons_append, findExtension, if_neg (Ne.symm hslash.1), if_neg (Ne.symm hdot.1),
      ih hdot.2 hslash.2, List.reverse_cons, List.append_assoc, List.singleton_append]

/-- Behind the last dot, an extension goes to the end of the path. -/
theorem extension_of_dot {suffix : Bytes} (hdot : dot ∉ suffix) (hslash : slash ∉ suffix)
    (front : Bytes) : extension (front ++ dot :: suffix) = dot :: suffix := by
  have hreverse : (front ++ dot :: suffix).reverse = suffix.reverse ++ dot :: front.reverse := by
    simp
  rw [extension, hreverse, findExtension_append (by simpa using hdot) (by simpa using hslash),
    findExtension, if_neg (by decide), if_pos rfl, List.reverse_reverse, List.append_nil]

/-- A path whose last element has no dot has no extension. -/
theorem Cut.extension_eq_nil (h : Cut path dir element) (hdot : dot ∉ element) :
    extension path = [] := by
  have hreverse : path.reverse = element.reverse ++ dir.reverse := by
    rw [h.path_eq, List.reverse_append]
  rw [extension, hreverse,
    findExtension_append (by simpa using hdot) (by simpa using h.slash_notMem)]
  cases hend : dir.reverse with
  | nil => rfl
  | cons b before =>
    have hb : b = slash := h.dir_end b (by rw [← List.head?_reverse, hend]; rfl)
    rw [findExtension, if_pos hb]

end

/-- An ending is taken off a text that ends with it. -/
theorem dropEnd_append (front ending : Bytes) : (front ++ ending).dropEnd ending = front := by
  have hends : ending.isSuffixOf (front ++ ending) :=
    List.isSuffixOf_iff_suffix.mpr (List.suffix_append front ending)
  rw [dropEnd, if_pos hends, List.length_append, Nat.add_sub_cancel, List.take_left]

/-! ## Replacing extensions -/

/-- A dot, and then neither dots nor slashes. -/
def IsExtension (ext : Bytes) : Prop :=
  ∃ letters, ext = dot :: letters ∧ dot ∉ letters ∧ slash ∉ letters

section
variable {path dir element w ext : Bytes}

theorem IsExtension.slash_notMem (h : IsExtension ext) : slash ∉ ext := by
  obtain ⟨letters, rfl, -, hslash⟩ := h
  rw [List.mem_cons, not_or]
  exact ⟨by decide, hslash⟩

/-- What stands before an extension is the stem. -/
theorem IsExtension.isStem_append (h : IsExtension ext) (hw : w ≠ []) : IsStem (w ++ ext) w := by
  obtain ⟨letters, rfl, hdot, -⟩ := h
  exact .beforeDot hw hdot

/-- Where there is no extension, or nothing else in the last element, one more is put behind. -/
theorem replaceExtension_of_whole
    (h : extension path = [] ∨ extension path = path ∨ (slash :: extension path) <:+ path)
    (ext : Bytes) : replaceExtension path ext = path ++ ext :=
  if_pos (by simpa [or_assoc] using h)

/-- An extension that has something else before it in the last element is taken off. -/
theorem replaceExtension_of_part {front : Bytes} (hold : extension path ≠ [])
    (hpath : path = front ++ extension path) (hfront : front ≠ [])
    (hslash : ∀ b ∈ front.getLast?, b ≠ slash) (ext : Bytes) :
    replaceExtension path ext = front ++ ext := by
  generalize hext : extension path = old at hold hpath
  have hshorter : old ≠ path := by
    intro heq
    have hlength := congrArg List.length (heq.trans hpath)
    have hpos := List.length_pos_iff.mpr hfront
    rw [List.length_append] at hlength
    omega
  have hends : ¬ (slash :: old) <:+ path := by
    rintro ⟨above, habove⟩
    rw [hpath, List.append_cons] at habove
    refine hslash slash ?_ rfl
    rw [← List.append_cancel_right habove]
    exact List.getLast?_concat
  rw [replaceExtension, hext, if_neg (by simp [hold, hshorter, hends]), hpath, dropEnd_append]

/-- The directory and the stem stay, and the extension follows. -/
theorem Cut.replaceExtension_eq (h : Cut path dir element) (hstem : IsStem element w)
    (ext : Bytes) : replaceExtension path ext = dir ++ (w ++ ext) := by
  have hslash := h.slash_notMem
  cases hstem with
  | noDot hdot =>
    rw [replaceExtension_of_whole (.inl (h.extension_eq_nil hdot)), h.path_eq, List.append_assoc]
  | @firstDot rest hdot =>
    -- The extension is the whole element, and a slash is before it unless it is the whole path.
    rw [List.mem_cons, not_or] at hslash
    have hold : extension path = dot :: rest := by
      rw [h.path_eq, extension_of_dot hdot hslash.2]
    have hwhole : extension path = path ∨ (slash :: extension path) <:+ path := by
      rw [hold, h.path_eq]
      cases hend : dir.getLast? with
      | none =>
        rw [List.getLast?_eq_none_iff.mp hend]
        exact .inl rfl
      | some b =>
        obtain rfl : b = slash := h.dir_end b hend
        obtain ⟨above, rfl⟩ := List.getLast?_eq_some_iff.mp hend
        exact .inr ⟨above, by simp⟩
    rw [replaceExtension_of_whole (.inr hwhole), h.path_eq, List.append_assoc]
  | @beforeDot _ suffix hne hdot =>
    rw [List.mem_append, List.mem_cons, not_or, not_or] at hslash
    have hpath : path = (dir ++ w) ++ dot :: suffix := by rw [h.path_eq, List.append_assoc]
    have hold : extension path = dot :: suffix := by
      rw [hpath, extension_of_dot hdot hslash.2.2]
    rw [← hold] at hpath
    rw [replaceExtension_of_part (by simp [hold]) hpath (by simp [hne]), List.append_assoc]
    -- What stands before the extension is the end of the stem.
    intro b hb
    rw [List.getLast?_append, List.getLast?_eq_some_getLast hne] at hb
    cases hb
    exact ne_of_mem_of_not_mem (List.getLast_mem hne) hslash.1

/-- Replacing an extension keeps the directory of the path and the stem of its last element. -/
theorem replaceExtension_eq (path ext : Bytes) :
    replaceExtension path ext = directoryPart path ++ stem (lastElement path) ++ ext := by
  obtain ⟨dir, element, hcut⟩ := exists_cut path
  obtain ⟨w, hstem⟩ := exists_isStem element
  obtain ⟨hdir, helement⟩ := hcut.parts_eq
  rw [hcut.replaceExtension_eq hstem, hdir, helement, hstem.stem_eq, List.append_assoc]

/-- A path whose extension was replaced is cut where it was before. -/
theorem Cut.replaceExtension (h : Cut path dir element) (hstem : IsStem element w)
    (hext : IsExtension ext) : Cut (replaceExtension path ext) dir (w ++ ext) where
  path_eq := h.replaceExtension_eq hstem ext
  dir_end := h.dir_end
  slash_notMem := by
    rw [List.mem_append, not_or]
    exact ⟨fun hmem => h.slash_notMem (hstem.subset hmem), hext.slash_notMem⟩

end

/-- **Only the extension of the last element is replaced.** The directory of a path stays, and its
last element becomes its stem with the extension. If there is a last element, its stem is not empty,
and to replace the extension again changes nothing. A path stays as it is exactly if its last
element is some text with the extension behind it. -/
theorem replaceExtension_changes_extension_only {ext : Bytes} (hext : IsExtension ext)
    (path : Bytes) :
    ∃ dir element stem, Cut path dir element ∧ IsStem element stem ∧
      Cut (replaceExtension path ext) dir (stem ++ ext) ∧
      (element ≠ [] → stem ≠ [] ∧
        replaceExtension (replaceExtension path ext) ext = replaceExtension path ext) ∧
      (replaceExtension path ext = path ↔ ∃ front, front ≠ [] ∧ element = front ++ ext) := by
  obtain ⟨dir, element, hcut⟩ := exists_cut path
  obtain ⟨w, hstem⟩ := exists_isStem element
  have hreplaced := hcut.replaceExtension hstem hext
  refine ⟨dir, element, w, hcut, hstem, hreplaced, fun helement => ?_, ⟨fun hsame => ?_, ?_⟩⟩
  · have hw := hstem.ne_nil helement
    refine ⟨hw, ?_⟩
    rw [hreplaced.replaceExtension_eq (hext.isStem_append hw), ← hreplaced.path_eq]
  · rw [hsame] at hreplaced
    have hwhole : element = w ++ ext := (hcut.unique hreplaced).2
    refine ⟨w, hstem.ne_nil fun hnil => ?_, hwhole⟩
    obtain ⟨letters, rfl, -⟩ := hext
    rw [hnil] at hwhole
    simp at hwhole
  · rintro ⟨front, hfront, rfl⟩
    cases hstem.unique (hext.isStem_append hfront)
    rw [hreplaced.path_eq, ← hcut.path_eq]

/-- The first dot of a hidden file belongs to its stem, and dots of directories do not count. -/
theorem replaceExtension_changes_extension_only_hidden :
    IsExtension ".c" ∧ replaceExtension "a.d/.x.ml" ".c" = "a.d/.x.c" ∧
      replaceExtension "a.d/.x.c" ".c" = "a.d/.x.c" := by
  have hext : IsExtension ".c" := ⟨"c", rfl, by decide, by decide⟩
  have hcut : Cut "a.d/.x.ml" "a.d/" ".x.ml" := by
    refine ⟨rfl, fun b hb => ?_, by decide⟩
    cases hb
    rfl
  have hfirst : replaceExtension "a.d/.x.ml" ".c" = "a.d/.x.c" := by decide
  obtain ⟨dir, element, stem, hcut', -, -, hagain, -⟩ :=
    replaceExtension_changes_extension_only hext "a.d/.x.ml"
  obtain ⟨-, rfl⟩ := hcut.unique hcut'
  have hsecond := (hagain (by decide)).2
  rw [hfirst] at hsecond
  exact ⟨hext, hfirst, hsecond⟩

end Path

end Arrowlet
