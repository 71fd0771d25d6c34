import Arrowlet.Proofs.Text.Characters

/-!
# Positions by offset

`Position.ofOffset cs k` is the place before the `k`-th of the characters `cs`, counted from zero.
It is given by the characters before it and not by going over them: their line feeds make lines, and
those after the last line feed make columns. Going over them gives the same position
(`Position.after_ofChars_take`), and positions come in the order of the offsets
(`Position.ofOffset_before`).
-/

namespace Arrowlet

namespace Position

open Bytes

/-- The position before the character with the number `k`, counted from zero. -/
def ofOffset (cs : List Char) (k : Nat) : Position :=
  ⟨1 + (cs.take k).count '\n', 1 + ((cs.take k).reverse.takeWhile (· ≠ '\n')).length⟩

/-- The order of the places in a text: by lines, and within a line by columns. -/
def Before (p q : Position) : Prop := p.line < q.line ∨ p.line = q.line ∧ p.column < q.column

theorem Before.trans {p q r : Position} (hpq : p.Before q) (hqr : q.Before r) : p.Before r := by
  simp only [Before] at *
  omega

/-- Bytes that continue a character leave the position as it is. -/
theorem after_continuations {w : Bytes} (h : w.all isContinuation) (pos : Position) :
    pos.after w = pos := by
  induction w with
  | nil => rfl
  | cons b w ih =>
    rw [List.all_cons, Bool.and_eq_true] at h
    have hb : b ≠ lineFeed := by
      rintro rfl
      exact absurd h.1 (by decide)
    rw [after, List.foldl_cons, next, if_neg hb, if_pos h.1]
    exact ih h.2

/-- A line feed starts a line, and any other character takes a column. -/
theorem after_encode (pos : Position) (c : Char) :
    pos.after (String.utf8EncodeChar c) =
      if c = '\n' then ⟨pos.line + 1, 1⟩ else ⟨pos.line, pos.column + 1⟩ := by
  split
  · next hc =>
    subst hc
    rfl
  · next hc =>
    obtain ⟨b, rest, heq, hb, hrest⟩ := exists_encode_eq_first c
    have hne : b ≠ lineFeed := by
      rintro rfl
      exact lineFeed_notMem_encode hc (heq ▸ .head _)
    have hfirst : pos.next b = ⟨pos.line, pos.column + 1⟩ := by
      rw [next, if_neg hne, if_neg (by simpa [isFirst] using hb)]
    rw [heq, after, List.foldl_cons, hfirst]
    exact after_continuations hrest _

/-- Characters lead to a later position. -/
theorem before_after_ofChars {cs : List Char} (h : cs ≠ []) (pos : Position) :
    pos.Before (pos.after (ofChars cs)) := by
  have hstep : ∀ (q : Position) (c : Char), q.Before (q.after (String.utf8EncodeChar c)) := by
    intro q c
    rw [after_encode]
    split
    · exact .inl (Int.lt_succ _)
    · exact .inr ⟨rfl, Int.lt_succ _⟩
  induction cs generalizing pos with
  | nil => exact absurd rfl h
  | cons c cs ih =>
    rw [ofChars_cons, after_append]
    by_cases hcs : cs = []
    · rw [hcs]
      exact hstep pos c
    · exact (hstep pos c).trans (ih hcs _)

/-- The position after characters is told by them. -/
theorem after_ofChars (cs : List Char) :
    start.after (ofChars cs) =
      ⟨1 + cs.count '\n', 1 + (cs.reverse.takeWhile (· ≠ '\n')).length⟩ := by
  induction cs using List.reverseRecOn with
  | nil => rfl
  | append_singleton cs c ih =>
    rw [ofChars_append, after_append, ih, ofChars_cons, ofChars_nil, List.append_nil, after_encode]
    by_cases hc : c = '\n'
    · simp only [hc, if_true, List.count_append, List.count_singleton_self, List.reverse_append,
        List.reverse_singleton, List.singleton_append, mk.injEq]
      refine ⟨by omega, ?_⟩
      simp
    · simp only [hc, if_false, List.count_append, List.reverse_append, List.reverse_singleton,
        List.singleton_append, mk.injEq]
      have hcount : [c].count '\n' = 0 := List.count_eq_zero.mpr (by simpa using Ne.symm hc)
      rw [hcount, List.takeWhile_cons_of_pos (by simpa using hc), List.length_cons]
      exact ⟨by omega, by omega⟩

theorem after_ofChars_take (cs : List Char) (k : Nat) :
    start.after (ofChars (cs.take k)) = ofOffset cs k := after_ofChars _

theorem after_ofChars_length (cs : List Char) :
    start.after (ofChars cs) = ofOffset cs cs.length := by
  rw [← after_ofChars_take, List.take_length]

/-- Going on from the end of characters leads to the end of more of them. -/
theorem ofOffset_length_after (cs ds : List Char) :
    (ofOffset cs cs.length).after (ofChars ds) = ofOffset (cs ++ ds) (cs ++ ds).length := by
  rw [← after_ofChars_length, ← after_ofChars_length, ofChars_append, after_append]

/-- The position before a character does not depend on what follows. -/
theorem ofOffset_append {cs : List Char} {k : Nat} (hk : k ≤ cs.length) (ds : List Char) :
    ofOffset (cs ++ ds) k = ofOffset cs k := by
  rw [ofOffset, ofOffset, List.take_append_of_le_length hk]

/-- Positions come in the order of the offsets. -/
theorem ofOffset_before {cs : List Char} {j k : Nat} (hjk : j < k) (hk : k ≤ cs.length) :
    (ofOffset cs j).Before (ofOffset cs k) := by
  have hcut : cs.take k = cs.take j ++ (cs.drop j).take (k - j) := by
    rw [← List.take_add, Nat.add_sub_cancel' (Nat.le_of_lt hjk)]
  have hne : (cs.drop j).take (k - j) ≠ [] := by
    rw [← List.length_pos_iff, List.length_take, List.length_drop]
    omega
  rw [← after_ofChars_take, ← after_ofChars_take, hcut, ofChars_append, after_append]
  exact before_after_ofChars hne _

end Position

end Arrowlet
