import Arrowlet.Proofs.Position.Behind

/-!
# Texts as lists of characters

`Bytes.ofChars` writes characters one after the other. Different characters give different texts
(`Bytes.ofChars_inj`), and a text of characters that is cut behind whole characters is cut between
two of them (`Bytes.exists_ofChars_of_append`).

Which bytes encode a character is said by their ranges (`Bytes.IsSequence`), without a decoder: the
first byte tells how many follow, and bounds on the second one leave out longer forms than needed,
surrogates and codes beyond the last character. These sequences are the encodings of characters
(`Bytes.exists_encode_eq_iff`).
-/

namespace Arrowlet

namespace Bytes

open Position

/-! ## Characters one after the other -/

/-- The encodings of characters, one after the other. -/
def ofChars (cs : List Char) : Bytes := cs.flatMap String.utf8EncodeChar

section
variable {cs ds : List Char} {s t : Bytes}

@[simp] theorem ofChars_nil : ofChars [] = [] := rfl

@[simp] theorem ofChars_cons (c : Char) (cs : List Char) :
    ofChars (c :: cs) = String.utf8EncodeChar c ++ ofChars cs := List.flatMap_cons

@[simp] theorem ofChars_append (cs ds : List Char) :
    ofChars (cs ++ ds) = ofChars cs ++ ofChars ds := List.flatMap_append

theorem isEncoded_ofChars (cs : List Char) : IsEncoded (ofChars cs) := ⟨cs, rfl⟩

theorem units_ofChars (cs : List Char) : units (ofChars cs) = cs.map .char := by
  induction cs with
  | nil => simp [units]
  | cons c cs ih => rw [ofChars_cons, units_encode_append, ih, List.map_cons]

@[simp] theorem charCount_ofChars (cs : List Char) : charCount (ofChars cs) = cs.length := by
  rw [charCount, units_ofChars, List.length_map]

/-- Different characters give different texts. -/
theorem ofChars_inj : ofChars cs = ofChars ds ↔ cs = ds := by
  refine ⟨fun h => ?_, congrArg ofChars⟩
  have hunits := congrArg units h
  rw [units_ofChars, units_ofChars] at hunits
  exact (List.map_inj_right fun _ _ => TextUnit.char.inj).mp hunits

/-- What follows encoded characters decides whether the whole text is encoded. -/
theorem IsEncoded.append_iff (hs : IsEncoded s) : IsEncoded (s ++ t) ↔ IsEncoded t := by
  obtain ⟨cs, rfl⟩ := hs
  induction cs with
  | nil => exact Iff.rfl
  | cons c cs ih =>
    rw [List.flatMap_cons, List.append_assoc, isEncoded_encode_append_iff]
    exact ih

/-- A text of characters that is cut behind whole characters is cut between two of them. -/
theorem exists_ofChars_of_append (h : ofChars cs = s ++ t) (hs : IsEncoded s) :
    ∃ before after, cs = before ++ after ∧ s = ofChars before ∧ t = ofChars after := by
  obtain ⟨after, hafter⟩ := hs.append_iff.mp (h ▸ isEncoded_ofChars cs)
  obtain ⟨before, hbefore⟩ := hs
  refine ⟨before, after, ?_, hbefore, hafter⟩
  rw [← ofChars_inj, h, ofChars_append, hbefore, hafter]
  rfl

/-- A character whose encoding begins with a byte below 128 is the one with that code. -/
theorem eq_ofUInt8_of_encode {c : Char} {b : UInt8} {rest : Bytes}
    (h : String.utf8EncodeChar c = b :: rest) (hb : b.toNat < 128) : c = Char.ofUInt8 b := by
  have hchar := firstChar?_encode_append c []
  have hascii := firstChar?_encode_append (Char.ofUInt8 b) rest
  rw [List.append_nil, h] at hchar
  rw [encode_ofUInt8 hb, List.singleton_append] at hascii
  exact Option.some.inj (hchar.symm.trans hascii)

/-- A byte below 128 is in no other encoding than its own. -/
theorem eq_ofUInt8_of_mem_encode {c : Char} {b : UInt8} (h : b ∈ String.utf8EncodeChar c)
    (hb : b.toNat < 128) : c = Char.ofUInt8 b := by
  obtain ⟨first, others, heq, -, hothers⟩ := exists_encode_eq_first c
  rw [heq] at h
  rcases List.mem_cons.mp h with rfl | h
  · exact eq_ofUInt8_of_encode heq hb
  · have := isContinuation_iff.mp (List.all_eq_true.mp hothers b h)
    omega

/-- A text begins with a byte below 128 exactly if it begins with that character. -/
theorem head?_ofChars_eq_iff {b : UInt8} (hb : b.toNat < 128) :
    (ofChars cs).head? = some b ↔ cs.head? = some (Char.ofUInt8 b) := by
  cases cs with
  | nil => simp
  | cons c cs =>
    obtain ⟨first, others, heq, -⟩ := exists_encode_eq_cons c
    rw [ofChars_cons, heq, List.cons_append, List.head?_cons, List.head?_cons, Option.some.injEq,
      Option.some.injEq]
    constructor
    · rintro rfl
      exact eq_ofUInt8_of_encode heq hb
    · rintro rfl
      rw [encode_ofUInt8 hb] at heq
      exact (List.cons.inj heq).1.symm

end

/-! ## Sequences of bytes -/

/-- The bytes that encode a character. -/
inductive IsSequence : Bytes → Prop
  | one {a : UInt8} (first : a.toNat ≤ 0x7f) : IsSequence [a]
  | two {a b : UInt8} (first : 0xc2 ≤ a.toNat ∧ a.toNat ≤ 0xdf) (hb : isContinuation b) :
      IsSequence [a, b]
  | three {a b c : UInt8} (first : 0xe0 ≤ a.toNat ∧ a.toNat ≤ 0xef) (hb : isContinuation b)
      (hc : isContinuation c) (needed : a.toNat = 0xe0 → 0xa0 ≤ b.toNat)
      (surrogate : a.toNat = 0xed → b.toNat ≤ 0x9f) : IsSequence [a, b, c]
  | four {a b c d : UInt8} (first : 0xf0 ≤ a.toNat ∧ a.toNat ≤ 0xf4) (hb : isContinuation b)
      (hc : isContinuation c) (hd : isContinuation d) (needed : a.toNat = 0xf0 → 0x90 ≤ b.toNat)
      (last : a.toNat = 0xf4 → b.toNat ≤ 0x8f) : IsSequence [a, b, c, d]

/-- The encoding of a character is a sequence. -/
theorem isSequence_encode (c : Char) : IsSequence (String.utf8EncodeChar c) := by
  have hvalid : c.val.toNat < 0xd800 ∨ 0xdfff < c.val.toNat ∧ c.val.toNat < 0x110000 := c.valid
  have hnat : ∀ n, n < 256 → (UInt8.ofNat n).toNat = n := by
    intro n hn
    rw [UInt8.toNat_ofNat', Nat.mod_eq_of_lt hn]
  have hcont : ∀ n, isContinuation (UInt8.ofNat (n % 64 + 128)) := by
    intro n
    rw [isContinuation_iff, hnat _ (by omega)]
    omega
  unfold String.utf8EncodeChar
  dsimp only
  generalize c.val.toNat = v at hvalid
  split
  · exact .one (by rw [hnat _ (by omega)]; omega)
  split
  · exact .two (by rw [hnat _ (by omega)]; omega) (hcont _)
  split
  · refine .three (by rw [hnat _ (by omega)]; omega) (hcont _) (hcont _) ?_ ?_
    all_goals
      rw [hnat _ (by omega), hnat _ (by omega)]
      omega
  · refine .four (by rw [hnat _ (by omega)]; omega) (hcont _) (hcont _) (hcont _) ?_ ?_
    all_goals
      rw [hnat _ (by omega), hnat _ (by omega)]
      omega

/-- A sequence encodes the character whose code its bytes give, six bits by six. -/
theorem IsSequence.exists_encode {w : Bytes} (h : IsSequence w) :
    ∃ c : Char, String.utf8EncodeChar c = w := by
  have hval : ∀ n (hn : n.isValidChar), (Char.ofNatAux n hn).val.toNat = n := fun n hn => rfl
  have hbyte : ∀ {b : UInt8} {n : Nat}, n = b.toNat → UInt8.ofNat n = b := by
    rintro b n rfl
    exact UInt8.ofNat_toNat
  cases h with
  | @one a first =>
    refine ⟨Char.ofNatAux a.toNat (.inl (by omega)), ?_⟩
    unfold String.utf8EncodeChar
    dsimp only
    rw [hval, if_pos (by omega), UInt8.ofNat_toNat]
  | @two a b first hb =>
    rw [isContinuation_iff] at hb
    refine ⟨Char.ofNatAux ((a.toNat - 0xc0) * 64 + (b.toNat - 0x80)) (.inl (by omega)), ?_⟩
    unfold String.utf8EncodeChar
    dsimp only
    rw [hval, if_neg (by omega), if_pos (by omega), hbyte (b := a) (by omega),
      hbyte (b := b) (by omega)]
  | @three a b c first hb hc needed surrogate =>
    rw [isContinuation_iff] at hb hc
    refine ⟨Char.ofNatAux (((a.toNat - 0xe0) * 64 + (b.toNat - 0x80)) * 64 + (c.toNat - 0x80)) ?_,
      ?_⟩
    · rw [Nat.isValidChar]
      omega
    · unfold String.utf8EncodeChar
      dsimp only
      rw [hval, if_neg (by omega), if_neg (by omega), if_pos (by omega), hbyte (b := a) (by omega),
        hbyte (b := b) (by omega), hbyte (b := c) (by omega)]
  | @four a b c d first hb hc hd needed last =>
    rw [isContinuation_iff] at hb hc hd
    refine ⟨Char.ofNatAux ((((a.toNat - 0xf0) * 64 + (b.toNat - 0x80)) * 64 + (c.toNat - 0x80)) * 64
      + (d.toNat - 0x80)) ?_, ?_⟩
    · rw [Nat.isValidChar]
      omega
    · unfold String.utf8EncodeChar
      dsimp only
      rw [hval, if_neg (by omega), if_neg (by omega), if_neg (by omega), hbyte (b := a) (by omega),
        hbyte (b := b) (by omega), hbyte (b := c) (by omega), hbyte (b := d) (by omega)]

/-- The sequences are the encodings of characters. -/
theorem exists_encode_eq_iff {w : Bytes} :
    (∃ c : Char, String.utf8EncodeChar c = w) ↔ IsSequence w :=
  ⟨fun ⟨c, hc⟩ => hc ▸ isSequence_encode c, IsSequence.exists_encode⟩

/-- A text is encoded exactly if it can be cut into sequences. -/
theorem isEncoded_iff_sequences {text : Bytes} :
    IsEncoded text ↔ ∃ ws : List Bytes, text = ws.flatten ∧ ∀ w ∈ ws, IsSequence w := by
  constructor
  · rintro ⟨cs, rfl⟩
    refine ⟨cs.map String.utf8EncodeChar, rfl, fun w hw => ?_⟩
    obtain ⟨c, -, rfl⟩ := List.mem_map.mp hw
    exact isSequence_encode c
  · rintro ⟨ws, rfl, hws⟩
    induction ws with
    | nil => exact .nil
    | cons w ws ih =>
      obtain ⟨hw, hrest⟩ := List.forall_mem_cons.mp hws
      obtain ⟨c, hc⟩ := hw.exists_encode
      rw [List.flatten_cons, ← hc, isEncoded_encode_append_iff]
      exact ih hrest

end Bytes

end Arrowlet
