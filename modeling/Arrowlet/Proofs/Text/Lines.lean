import Arrowlet.Proofs.Position.Behind

/-!
# Lines of a text and places in them

The lines of a text are what stands between its line feeds: they hold none, and joined with line
feeds they are the text again (`Bytes.lines_eq_splitOn`). Behind `s`, the line that has as many line
feeds before it as `s` goes on where the last line of `s` ends (`Bytes.getElem?_lines_append`).

A text of encoded characters may be cut before the first byte of a character and after a byte below
128, and both parts are encoded then (`Bytes.IsEncoded.of_append`,
`Bytes.IsEncoded.of_append_ascii`). `Bytes.afterChars` leaves off characters at the beginning of a
text, and behind encoded characters it finds what stands there
(`Bytes.IsEncoded.afterChars_append`).
-/

namespace Arrowlet

namespace Bytes

open Position

/-! ## Lines -/

/-- The text is a single line: it holds no line feed. -/
def IsLine (w : Bytes) : Prop := lineFeed ∉ w

instance (w : Bytes) : Decidable w.IsLine := inferInstanceAs (Decidable (lineFeed ∉ w))

section
variable {w : Bytes}

theorem IsLine.append {w' : Bytes} (h : w.IsLine) (h' : w'.IsLine) : (w ++ w').IsLine :=
  List.mem_append.not.mpr (not_or.mpr ⟨h, h'⟩)

theorem IsLine.of_subset {w' : Bytes} (h : w.IsLine) (hsub : w' ⊆ w) : w'.IsLine :=
  fun hmem => h (hsub hmem)

/-- The pieces of a text are those of the general function on lists. -/
theorem splitOn_eq_splitOn (sep : UInt8) (text : Bytes) :
    splitOn sep text = List.splitOn sep text := by
  induction text with
  | nil => rfl
  | cons b rest ih =>
    rw [splitOn, List.splitOn_cons_eq_if_modifyHead, ← ih]
    by_cases hb : b = sep
    · rw [if_pos hb, if_pos (beq_iff_eq.mpr hb)]
    · rw [if_neg hb, if_neg (by simpa using hb)]
      cases hrest : splitOn sep rest with
      | nil => exact absurd (ih.symm.trans hrest) (List.splitOn_ne_nil _ _)
      | cons piece pieces => rfl

theorem lines_eq_splitOn (text : Bytes) : text.lines = List.splitOn lineFeed text :=
  splitOn_eq_splitOn lineFeed text

/-- A line ends with the first line feed. -/
theorem lines_append_lineFeed (hw : w.IsLine) (rest : Bytes) :
    lines (w ++ lineFeed :: rest) = w :: lines rest := by
  rw [lines_eq_splitOn, lines_eq_splitOn, List.splitOn_append_cons_self_of_not_mem hw]

/-- A text without a line feed is one line. -/
theorem lines_eq_singleton (hw : w.IsLine) : lines w = [w] := by
  rw [lines_eq_splitOn, List.splitOn_eq_singleton hw]

theorem isLine_takeWhile (text : Bytes) : IsLine (text.takeWhile (· ≠ lineFeed)) := by
  intro hmem
  simpa using List.all_eq_true.mp List.all_takeWhile _ hmem

/-- The first line is what stands before the first line feed. -/
theorem head?_lines (text : Bytes) : (lines text).head? = some (text.takeWhile (· ≠ lineFeed)) := by
  have hsplit := List.takeWhile_append_dropWhile (p := (· ≠ lineFeed)) (l := text)
  have hline := isLine_takeWhile text
  generalize text.takeWhile (· ≠ lineFeed) = line at hsplit hline ⊢
  cases hrest : text.dropWhile (· ≠ lineFeed) with
  | nil =>
    rw [hrest, List.append_nil] at hsplit
    rw [← hsplit, lines_eq_singleton hline, List.head?_cons]
  | cons b rest =>
    have hb : b = lineFeed := by
      have := List.head?_dropWhile_not (· ≠ lineFeed) text
      rw [hrest] at this
      simpa using this
    rw [hrest, hb] at hsplit
    rw [← hsplit, lines_append_lineFeed hline, List.head?_cons]

/-- A line of a text holds no line feed. -/
theorem isLine_of_mem_lines {text line : Bytes} (h : line ∈ text.lines) : line.IsLine := by
  induction text generalizing line with
  | nil =>
    cases List.mem_singleton.mp h
    decide
  | cons b rest ih =>
    rw [lines, splitOn] at h
    split at h
    · rcases List.mem_cons.mp h with rfl | h
      · decide
      · exact ih h
    · next hb =>
      have hfirst : ∀ {line : Bytes}, line.IsLine → IsLine (b :: line) :=
        fun hline => .append (w := [b]) (by simpa [IsLine] using Ne.symm hb) hline
      split at h
      · cases List.mem_singleton.mp h
        exact hfirst (by decide)
      · next piece pieces hrest =>
        have hpieces : ∀ line ∈ piece :: pieces, line.IsLine := by
          intro line hline
          rw [← hrest] at hline
          exact ih hline
        rcases List.mem_cons.mp h with rfl | h
        · exact hfirst (hpieces piece (.head _))
        · exact hpieces line (.tail _ h)

theorem isLine_lastLine (text : Bytes) : text.lastLine.IsLine :=
  (isLine_takeWhile text.reverse).of_subset fun _ => List.mem_reverse.mp

/-- The lines of a text from the one on that the last line of `s` goes on in. -/
theorem drop_lines_append (s rest : Bytes) :
    (lines (s ++ rest)).drop (s.count lineFeed) = lines (s.lastLine ++ rest) := by
  induction s using List.reverseRecOn generalizing rest with
  | nil => rfl
  | append_singleton s b ih =>
    rw [List.append_assoc, List.singleton_append, List.count_append, List.count_singleton,
      lastLine_concat]
    by_cases hb : b = lineFeed
    · subst hb
      rw [beq_self_eq_true, if_pos rfl, if_pos rfl, ← List.drop_drop, ih,
        lines_append_lineFeed (isLine_lastLine s)]
      rfl
    · rw [if_neg (by simpa using hb), if_neg hb, Nat.add_zero, ih, List.append_assoc,
        List.singleton_append]

/-- Behind a line feed at the end of a text there is an empty line. -/
theorem getLast?_lines_concat (text : Bytes) :
    (lines (text ++ [lineFeed])).getLast? = some [] := by
  have hdrop := drop_lines_append (text ++ [lineFeed]) []
  rw [List.append_nil, lastLine_concat, if_pos rfl, List.append_nil] at hdrop
  rw [← List.take_append_drop ((text ++ [lineFeed]).count lineFeed) (lines (text ++ [lineFeed])),
    hdrop]
  exact List.getLast?_concat ..

/-- Behind `s`, a line goes on where the last line of `s` ends. -/
theorem getElem?_lines_append (s rest : Bytes) :
    (lines (s ++ rest))[s.count lineFeed]? =
      some (s.lastLine ++ rest.takeWhile (· ≠ lineFeed)) := by
  rw [← List.head?_drop, drop_lines_append, head?_lines, List.takeWhile_append_of_pos]
  intro b hb
  rw [decide_eq_true_eq]
  rintro rfl
  exact isLine_lastLine s hb

end

/-! ## Ends of a text -/

section
variable {p : UInt8 → Bool} {s w rest : Bytes}

theorem trimRight_subset (p : UInt8 → Bool) (text : Bytes) : trimRight p text ⊆ text := by
  intro b hb
  exact List.mem_reverse.mp ((List.dropWhile_sublist p).subset (List.mem_reverse.mp hb))

/-- What is trimmed off a text satisfies the condition, and what is left does not end so. -/
theorem exists_eq_trimRight_append (p : UInt8 → Bool) (text : Bytes) :
    ∃ off, text = trimRight p text ++ off ∧ (∀ b ∈ off, p b) ∧
      ∀ b ∈ (trimRight p text).getLast?, ¬ p b := by
  have hsplit := List.takeWhile_append_dropWhile (p := p) (l := text.reverse)
  refine ⟨(text.reverse.takeWhile p).reverse, ?_, fun b hb => ?_, fun b hb => ?_⟩
  · rw [trimRight, ← List.reverse_append, hsplit, List.reverse_reverse]
  · exact List.all_eq_true.mp List.all_takeWhile b (List.mem_reverse.mp hb)
  · rw [trimRight, List.getLast?_reverse] at hb
    have hhead := List.head?_dropWhile_not p text.reverse
    rw [Option.mem_def.mp hb] at hhead
    simpa using hhead

/-- Nothing before a byte that is kept is trimmed off. -/
theorem trimRight_append_of_getLast (hw : ∃ b ∈ w.getLast?, ¬ p b) (s rest : Bytes) :
    trimRight p (s ++ (w ++ rest)) = s ++ (w ++ trimRight p rest) := by
  obtain ⟨b, hb, hp⟩ := hw
  obtain ⟨w', rfl⟩ := List.getLast?_eq_some_iff.mp hb
  have hkept : (b :: (w'.reverse ++ s.reverse)).dropWhile p = b :: (w'.reverse ++ s.reverse) :=
    List.dropWhile_cons_of_neg hp
  have hrev : (s ++ (w' ++ [b] ++ rest)).reverse =
      rest.reverse ++ (b :: (w'.reverse ++ s.reverse)) := by simp
  rw [trimRight, hrev, List.dropWhile_append, hkept]
  split
  · next hnil =>
    rw [trimRight, List.isEmpty_iff.mp hnil]
    simp
  · simp [trimRight]

end

/-! ## Cutting encoded texts -/

section
variable {s t : Bytes}

/-- A text of encoded characters that is cut before the first byte of a character. -/
theorem IsEncoded.of_append (h : IsEncoded (s ++ t)) (ht : ∀ b ∈ t.head?, isFirst b) :
    IsEncoded s ∧ IsEncoded t := by
  obtain ⟨cs, hcs⟩ := h
  induction cs generalizing s with
  | nil =>
    obtain ⟨rfl, rfl⟩ := List.append_eq_nil_iff.mp hcs
    exact ⟨.nil, .nil⟩
  | cons c cs ih =>
    rw [List.flatMap_cons] at hcs
    rcases List.append_eq_append_iff.mp hcs with ⟨w, hc, rfl⟩ | ⟨s', rfl, hrest⟩
    · -- The cut lies in the first character, so it stands before or after it.
      obtain ⟨b, rest, heq, -, hall⟩ := exists_encode_eq_first c
      cases s with
      | nil => exact ⟨.nil, c :: cs, by rw [List.flatMap_cons, hc, List.nil_append]⟩
      | cons b' s =>
        cases w with
        | nil =>
          rw [List.append_nil] at hc
          exact ⟨⟨[c], by rw [List.flatMap_singleton, hc]⟩, cs, rfl⟩
        | cons b'' w =>
          rw [heq, List.cons_append, List.cons.injEq] at hc
          have hcont := List.all_eq_true.mp hall b'' (by simp [hc.2])
          have hfirst := ht b'' rfl
          rw [isFirst, hcont] at hfirst
          cases hfirst
    · obtain ⟨hs, ht⟩ := ih hrest.symm
      exact ⟨isEncoded_encode_append_iff.mpr hs, ht⟩

/-- A text of encoded characters that is cut after a byte below 128. -/
theorem IsEncoded.of_append_ascii (h : IsEncoded (s ++ t)) (hs : ∀ b ∈ s.getLast?, b.toNat < 128) :
    IsEncoded s ∧ IsEncoded t := by
  cases hlast : s.getLast? with
  | none =>
    rw [List.getLast?_eq_none_iff.mp hlast] at h ⊢
    exact ⟨.nil, h⟩
  | some b =>
    have hb := hs b hlast
    obtain ⟨s', rfl⟩ := List.getLast?_eq_some_iff.mp hlast
    rw [List.append_assoc, List.singleton_append] at h
    have hfirst : isFirst b := isFirst_iff.mpr (.inl hb)
    obtain ⟨hs', hbt⟩ := h.of_append (t := b :: t) (by simpa using hfirst)
    rw [← List.singleton_append, ← encode_ofUInt8 hb] at hbt
    refine ⟨hs'.append (isEncoded_of_ascii ?_), isEncoded_encode_append_iff.mp hbt⟩
    simpa using hb

/-! ## Places in a line -/

/-- The text without its first `n` characters, a stray byte counting as one. -/
def afterChars (n : Nat) (text : Bytes) : Bytes := (text.units.drop n).flatMap TextUnit.bytes

/-- The units of encoded characters do not depend on what follows. -/
theorem IsEncoded.units_append (h : IsEncoded s) (t : Bytes) :
    units (s ++ t) = units s ++ units t := by
  obtain ⟨cs, rfl⟩ := h
  induction cs with
  | nil => simp [units]
  | cons c cs ih =>
    rw [List.flatMap_cons, List.append_assoc, units_encode_append, units_encode_append, ih,
      List.cons_append]

/-- What stands behind encoded characters comes after as many characters. -/
theorem IsEncoded.afterChars_append (h : IsEncoded s) (t : Bytes) :
    (s ++ t).afterChars s.charCount = t := by
  rw [afterChars, h.units_append, charCount, List.drop_left, flatMap_bytes_units]

/-- Nothing comes after as many characters as a text had before its end was trimmed. -/
theorem IsEncoded.afterChars_trimRight {p : UInt8 → Bool} (h : IsEncoded s)
    (hp : ∀ b, p b → b.toNat < 128) : (trimRight p s).afterChars s.charCount = [] := by
  obtain ⟨off, heq, hoff, -⟩ := exists_eq_trimRight_append p s
  have hkept : IsEncoded (trimRight p s) := by
    rw [heq] at h
    refine (h.of_append fun b hb => isFirst_iff.mpr (.inl ?_)).1
    exact hp b (hoff b (List.mem_of_mem_head? hb))
  have hle : (trimRight p s).units.length ≤ s.charCount := by
    rw [charCount]
    conv_rhs => rw [heq, hkept.units_append, List.length_append]
    exact Nat.le_add_right ..
  rw [afterChars, List.drop_eq_nil_of_le hle, List.flatMap_nil]

end

end Bytes

end Arrowlet
