import Arrowlet.Position
import Arrowlet.Proofs.Text.Encoding
import Mathlib.Data.List.Induction

/-!
# Positions behind a text

A position counts line feeds and, after the last of them, the bytes that begin a character
(`Position.after_start`). In a text of encoded characters each character has one such byte, so that
columns count characters (`Bytes.IsEncoded.countP_eq_charCount`).

`Position.behind s pos` is where the place at `pos` of a text gets when the text is put behind `s`:
lines move by the line feeds of `s`, and the first line is moved to the right by what stands after
the last of these. Going on over a text commutes with that (`Position.behind_after`), so a position
in a text that stands behind another one need not be counted again (`Position.after_behind`).
-/

namespace Arrowlet

/-! ## Bytes of a character -/

namespace Position

/-- Whether a byte is the first one of a character. -/
def isFirst (b : UInt8) : Bool := !isContinuation b

theorem isContinuation_iff {b : UInt8} : isContinuation b ↔ 128 ≤ b.toNat ∧ b.toNat ≤ 191 := by
  simp [isContinuation, UInt8.le_iff_toNat_le]

theorem isFirst_iff {b : UInt8} : isFirst b ↔ b.toNat < 128 ∨ 191 < b.toNat := by
  rw [isFirst, Bool.not_eq_true', Bool.eq_false_iff, Ne, isContinuation_iff]
  omega

end Position

namespace Bytes

open Position

/-- An encoded character is a first byte and bytes that continue it. -/
theorem exists_encode_eq_first (c : Char) :
    ∃ b rest, String.utf8EncodeChar c = b :: rest ∧ isFirst b ∧ rest.all isContinuation := by
  have hfirst : ∀ n, n < 128 ∨ 191 < n → n < 256 → isFirst (UInt8.ofNat n) := by
    intro n hn hlt
    rw [isFirst_iff, UInt8.toNat_ofNat', Nat.mod_eq_of_lt hlt]
    exact hn
  have hnext : ∀ n, isContinuation (UInt8.ofNat (n % 64 + 128)) := by
    intro n
    rw [isContinuation_iff, UInt8.toNat_ofNat']
    omega
  unfold String.utf8EncodeChar
  dsimp only
  split
  · exact ⟨_, [], rfl, hfirst _ (by omega) (by omega), rfl⟩
  · split
    · exact ⟨_, [_], rfl, hfirst _ (by omega) (by omega),
        by simp only [List.all_cons, hnext, List.all_nil, Bool.and_self]⟩
    · split
      · exact ⟨_, [_, _], rfl, hfirst _ (by omega) (by omega),
          by simp only [List.all_cons, hnext, List.all_nil, Bool.and_self]⟩
      · exact ⟨_, [_, _, _], rfl, hfirst _ (by omega) (by omega),
          by simp only [List.all_cons, hnext, List.all_nil, Bool.and_self]⟩

/-- An encoded character has one first byte. -/
theorem countP_isFirst_encode (c : Char) : (String.utf8EncodeChar c).countP isFirst = 1 := by
  obtain ⟨b, rest, heq, hb, hrest⟩ := exists_encode_eq_first c
  have hnone : rest.countP isFirst = 0 := by
    rw [List.countP_eq_zero]
    intro b' hb'
    simp [isFirst, List.all_eq_true.mp hrest b' hb']
  rw [heq, List.countP_cons_of_pos hb, hnone]

/-- The line feed is a byte of no other character. -/
theorem lineFeed_notMem_encode {c : Char} (hc : c ≠ '\n') :
    lineFeed ∉ String.utf8EncodeChar c := by
  obtain ⟨b, rest, heq, -, hrest⟩ := exists_encode_eq_first c
  rw [heq, List.mem_cons, not_or]
  refine ⟨fun hb => hc ?_, fun hmem => ?_⟩
  · -- A text that begins with the line feed byte begins with the character.
    have hchar := firstChar?_encode_append c []
    have hfeed := firstChar?_encode_append '\n' rest
    rw [List.append_nil, heq, ← hb] at hchar
    exact Option.some.inj (hchar.symm.trans hfeed)
  · have := isContinuation_iff.mp (List.all_eq_true.mp hrest _ hmem)
    simp [lineFeed] at this

/-! ## Characters of a text -/

/-- In a text of encoded characters there are as many characters as first bytes. -/
theorem IsEncoded.countP_eq_charCount {text : Bytes} (h : IsEncoded text) :
    text.countP isFirst = text.charCount := by
  obtain ⟨cs, rfl⟩ := h
  induction cs with
  | nil => simp [charCount, units]
  | cons c cs ih =>
    rw [charCount] at ih ⊢
    rw [List.flatMap_cons, List.countP_append, countP_isFirst_encode, units_encode_append,
      List.length_cons, ih, Nat.add_comm]

/-! ## The last line -/

/-- What stands after the last line feed of a text. -/
def lastLine (text : Bytes) : Bytes := (text.reverse.takeWhile (· ≠ lineFeed)).reverse

theorem lastLine_concat (text : Bytes) (b : UInt8) :
    lastLine (text ++ [b]) = if b = lineFeed then [] else lastLine text ++ [b] := by
  by_cases hb : b = lineFeed <;> simp [lastLine, hb]

theorem lastLine_append_of_notMem {w : Bytes} (hw : lineFeed ∉ w) (text : Bytes) :
    lastLine (text ++ w) = lastLine text ++ w := by
  have hall : ∀ b ∈ w.reverse, decide (b ≠ lineFeed) := by
    intro b hb
    rw [decide_eq_true_eq]
    rintro rfl
    exact hw (List.mem_reverse.mp hb)
  rw [lastLine, List.reverse_append, List.takeWhile_append_of_pos hall, List.reverse_append,
    List.reverse_reverse, lastLine]

/-- The last line of a text of encoded characters consists of encoded characters. -/
theorem IsEncoded.lastLine {text : Bytes} (h : IsEncoded text) : IsEncoded text.lastLine := by
  obtain ⟨cs, rfl⟩ := h
  induction cs using List.reverseRecOn with
  | nil => exact .nil
  | append_singleton cs c ih =>
    rw [List.flatMap_append, List.flatMap_singleton]
    by_cases hc : c = '\n'
    · subst hc
      have hfeed : String.utf8EncodeChar '\n' = [lineFeed] := by decide
      rw [hfeed, lastLine_concat, if_pos rfl]
      exact .nil
    · rw [lastLine_append_of_notMem (lineFeed_notMem_encode hc)]
      exact ih.append ⟨[c], (List.flatMap_singleton ..).symm⟩

end Bytes

/-! ## Positions -/

namespace Position

/-- The position after a text: line feeds make lines, and first bytes after the last of them make
columns. -/
theorem after_start (text : Bytes) :
    start.after text = ⟨1 + text.count Bytes.lineFeed, 1 + text.lastLine.countP isFirst⟩ := by
  induction text using List.reverseRecOn with
  | nil => rfl
  | append_singleton text b ih =>
    rw [after_append, ih, Bytes.lastLine_concat, List.count_append, List.count_singleton]
    simp only [after, List.foldl_cons, List.foldl_nil, next]
    by_cases hb : b = Bytes.lineFeed
    · simp only [hb, if_true, beq_self_eq_true, List.countP_nil, mk.injEq]
      omega
    · have hne : (b == Bytes.lineFeed) = false := beq_eq_false_iff_ne.mpr hb
      cases hcont : isContinuation b with
      | true => simp [hb, hne, List.countP_append, isFirst, hcont]
      | false =>
        simp only [hb, hne, if_false, Bool.false_eq_true, List.countP_append, List.countP_singleton,
          isFirst, hcont, Bool.not_false, if_true, mk.injEq]
        omega

/-- Where the place at a position of a text gets when the text is put behind `s`. -/
def behind (s : Bytes) (pos : Position) : Position :=
  ⟨pos.line + s.count Bytes.lineFeed,
    if pos.line = 1 then pos.column + s.lastLine.charCount else pos.column⟩

/-- The beginning of a text gets to the end of the one that it is put behind. -/
theorem behind_start {s : Bytes} (hs : s.IsEncoded) : start.behind s = start.after s := by
  rw [after_start, hs.lastLine.countP_eq_charCount, behind, start, if_pos rfl]

/-- Lines are never counted back. -/
theorem one_le_line_after {pos : Position} (h : 1 ≤ pos.line) (text : Bytes) :
    1 ≤ (pos.after text).line := by
  induction text generalizing pos with
  | nil => exact h
  | cons b text ih =>
    refine ih ?_
    rw [next]
    split
    · exact Int.le_add_one h
    · split <;> exact h

/-- Putting a text behind another one and going on over it commute. -/
theorem behind_after {pos : Position} (h : 1 ≤ pos.line) (s text : Bytes) :
    (pos.after text).behind s = (pos.behind s).after text := by
  induction text generalizing pos with
  | nil => rfl
  | cons b text ih =>
    have hstep : (pos.next b).behind s = (pos.behind s).next b := by
      simp only [next, behind]
      split
      · have hline : ¬ pos.line + 1 = 1 := by omega
        simp only [hline, if_false, mk.injEq, and_true]
        omega
      · split
        · rfl
        · split
          · simp only [mk.injEq, true_and]
            omega
          · rfl
    have hline : 1 ≤ (pos.next b).line := one_le_line_after h [b]
    exact (ih hline).trans (congrArg (after · text) hstep)

/-- A position in a text that stands behind another one. -/
theorem after_behind {s : Bytes} (hs : s.IsEncoded) (text : Bytes) :
    start.after (s ++ text) = (start.after text).behind s := by
  rw [after_append, ← behind_start hs, behind_after (Int.le_refl 1)]

end Position

end Arrowlet
