import Arrowlet.Text.Utf8

/-!
# Texts that are encoded characters

`Bytes.IsEncoded` says that a text is the concatenation of the UTF-8 encodings of characters. The
first character of a text, if there is one, is the only character its encoding can begin with, so
what follows decides whether the text is encoded (`Bytes.isEncoded_encode_append_iff`). Any other
text has a byte behind an encoded beginning with which no character begins
(`Bytes.isEncoded_or_stray`).
-/

namespace Arrowlet

namespace Bytes

/-- The text consists of encoded characters. -/
def IsEncoded (text : Bytes) : Prop := ∃ cs : List Char, text = cs.flatMap String.utf8EncodeChar

theorem IsEncoded.nil : IsEncoded [] := ⟨[], rfl⟩

/-- What follows an encoded character decides whether the whole text is encoded. -/
theorem isEncoded_encode_append_iff {c : Char} {rest : Bytes} :
    IsEncoded (String.utf8EncodeChar c ++ rest) ↔ IsEncoded rest := by
  constructor
  · rintro ⟨cs, hcs⟩
    have hfirst := firstChar?_encode_append c rest
    cases cs with
    | nil =>
      rw [List.flatMap_nil] at hcs
      rw [hcs] at hfirst
      cases hfirst
    | cons c' cs' =>
      rw [List.flatMap_cons] at hcs
      rw [hcs, firstChar?_encode_append] at hfirst
      cases hfirst
      exact ⟨cs', List.append_cancel_left hcs⟩
  · rintro ⟨cs, rfl⟩
    exact ⟨c :: cs, rfl⟩

/-- The bytes below 128 are the encodings of the characters with these codes. -/
theorem encode_ofUInt8 {b : UInt8} (h : b.toNat < 128) :
    String.utf8EncodeChar (Char.ofUInt8 b) = [b] := by
  have hval : (Char.ofUInt8 b).val = b.toUInt32 := rfl
  have hsize : (Char.ofUInt8 b).utf8Size = 1 := by
    rw [Char.utf8Size_eq_one_iff, UInt32.le_iff_toNat_le, hval, UInt8.toNat_toUInt32]
    exact Nat.le_of_lt_succ h
  rw [String.utf8EncodeChar_eq_singleton hsize, hval, UInt8.toUInt8_toUInt32]

/-- A byte that begins no character is not below 128. -/
theorem le_of_firstChar?_eq_none {b : UInt8} {rest : Bytes}
    (h : firstChar? (b :: rest) = none) : 128 ≤ b.toNat := by
  rw [← Nat.not_lt]
  intro hlt
  have hchar := firstChar?_encode_append (Char.ofUInt8 b) rest
  rw [encode_ofUInt8 hlt, List.singleton_append, h] at hchar
  cases hchar

/-- A text whose bytes are below 128 is encoded. -/
theorem isEncoded_of_ascii {text : Bytes} (h : ∀ b ∈ text, b.toNat < 128) : IsEncoded text := by
  induction text with
  | nil => exact .nil
  | cons b text ih =>
    obtain ⟨hb, htext⟩ := List.forall_mem_cons.mp h
    rw [← List.singleton_append, ← encode_ofUInt8 hb, isEncoded_encode_append_iff]
    exact ih htext

/-- A text that is encoded and not empty begins with a character. -/
theorem IsEncoded.firstChar?_ne_none {text : Bytes} (h : IsEncoded text) (hne : text ≠ []) :
    text.firstChar? ≠ none := by
  obtain ⟨cs, rfl⟩ := h
  cases cs with
  | nil => exact absurd rfl hne
  | cons c cs =>
    rw [List.flatMap_cons, firstChar?_encode_append]
    exact Option.some_ne_none c

/-! ## Behind encoded characters -/

theorem IsEncoded.append {s t : Bytes} (hs : IsEncoded s) (ht : IsEncoded t) :
    IsEncoded (s ++ t) := by
  obtain ⟨cs, rfl⟩ := hs
  obtain ⟨ds, rfl⟩ := ht
  exact ⟨cs ++ ds, List.flatMap_append.symm⟩

/-- An encoded character is a byte and as many others as its size tells. -/
theorem exists_encode_eq_cons (c : Char) :
    ∃ b w, String.utf8EncodeChar c = b :: w ∧ c.utf8Size - 1 = w.length := by
  have hlength := String.length_utf8EncodeChar c
  have hsize := Char.utf8Size_pos c
  cases h : String.utf8EncodeChar c with
  | nil =>
    rw [h, List.length_nil] at hlength
    omega
  | cons b w =>
    rw [h, List.length_cons] at hlength
    exact ⟨b, w, rfl, by omega⟩

/-- The first unit of a text that begins with an encoded character. -/
theorem units_encode_append (c : Char) (rest : Bytes) :
    units (String.utf8EncodeChar c ++ rest) = .char c :: units rest := by
  obtain ⟨b, w, heq, hsize⟩ := exists_encode_eq_cons c
  have hchar := firstChar?_encode_append c rest
  rw [heq, List.cons_append] at hchar ⊢
  rw [units, hchar]
  simp only [hsize, List.drop_left]

/-- A text is encoded, or a byte that begins no character follows its encoded beginning. -/
theorem isEncoded_or_stray (text : Bytes) :
    IsEncoded text ∨ ∃ valid b rest, text = valid ++ b :: rest ∧ IsEncoded valid ∧
      firstChar? (b :: rest) = none := by
  fun_induction units text with
  | case1 => exact .inl .nil
  | case2 b rest c hc ih =>
    have hsize := Char.utf8Size_pos c
    have htext := encode_append_drop_of_firstChar? hc
    rw [show c.utf8Size = c.utf8Size - 1 + 1 by omega, List.drop_succ_cons] at htext
    rw [← htext]
    rcases ih with hrest | ⟨valid, b', rest', heq, hvalid, hstray⟩
    · exact .inl (isEncoded_encode_append_iff.mpr hrest)
    · have hlonger : IsEncoded (String.utf8EncodeChar c ++ valid) :=
        isEncoded_encode_append_iff.mpr hvalid
      exact .inr ⟨_, b', rest', by rw [heq, List.append_assoc], hlonger, hstray⟩
  | case3 b rest hnone => exact .inr ⟨[], b, rest, rfl, .nil, hnone⟩

end Bytes

end Arrowlet
