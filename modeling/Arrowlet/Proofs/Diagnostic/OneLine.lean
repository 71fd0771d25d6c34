import Arrowlet.Program.ParseError
import Arrowlet.Proofs.Text.Lines
import Arrowlet.Token.LexError

/-!
# Messages are single lines

A message puts numerals, names of kinds and quoted texts together. Numerals and names hold no line
feed, and a quoted text escapes it: the line feed is not printable. So the message of an error holds
none, whatever text it quotes (`LexError.isLine_message`, `ParseError.isLine_message`).
-/

namespace Arrowlet

/-! ## Numerals -/

namespace Bytes

theorem lineFeed_ne_digitChar (n : Nat) : lineFeed ≠ (Nat.digitChar n).toUInt8 := by
  by_cases hn : n < 16
  · revert n
    decide
  · rw [Nat.digitChar]
    iterate 16 rw [if_neg (by omega)]
    decide

/-- A numeral consists of digits. -/
theorem exists_digitChar_of_mem {base n : Nat} {c : Char} (h : c ∈ Nat.toDigits base n) :
    ∃ m, c = Nat.digitChar m := by
  have core : ∀ fuel n acc, c ∈ Nat.toDigitsCore base fuel n acc →
      c ∈ acc ∨ ∃ m, c = Nat.digitChar m := by
    intro fuel
    induction fuel with
    | zero => exact fun n acc h => .inl h
    | succ fuel ih =>
      intro n acc h
      have hcons : c ∈ (n % base).digitChar :: acc → c ∈ acc ∨ ∃ m, c = Nat.digitChar m :=
        fun h => (List.mem_cons.mp h).elim (fun heq => .inr ⟨_, heq⟩) .inl
      rw [Nat.toDigitsCore] at h
      split at h
      · exact hcons h
      · exact (ih _ _ h).elim hcons .inr
  exact (core _ _ _ h).resolve_left List.not_mem_nil

theorem isLine_digits (base n : Nat) : IsLine ((Nat.toDigits base n).map Char.toUInt8) := by
  intro h
  obtain ⟨c, hc, heq⟩ := List.mem_map.mp h
  obtain ⟨m, rfl⟩ := exists_digitChar_of_mem hc
  exact lineFeed_ne_digitChar m heq.symm

theorem isLine_ofInt (n : Int) : (ofInt n).IsLine := by
  cases n with
  | ofNat n => exact isLine_digits 10 n
  | negSucc n => exact .append (by decide) (isLine_digits 10 (n + 1))

theorem isLine_hexadecimal (width n : Nat) : (zeroPad width (hexadecimal n)).IsLine := by
  refine .append (fun h => ?_) (isLine_digits 16 n)
  exact absurd (List.mem_replicate.mp h).2 (by decide)

end Bytes

theorem Position.isLine_text (pos : Position) : pos.text.IsLine :=
  .append (.append (Bytes.isLine_ofInt _) (by decide)) (Bytes.isLine_ofInt _)

/-! ## Quoted texts -/

namespace Quoted

theorem isLine_numericEscape (c : Char) : (numericEscape c).IsLine := by
  unfold numericEscape
  dsimp only
  split
  · exact .append (by decide) (Bytes.isLine_hexadecimal _ _)
  · split
    · exact .append (by decide) (Bytes.isLine_hexadecimal _ _)
    · exact .append (by decide) (Bytes.isLine_hexadecimal _ _)

/-- The letter of a short escape is no line feed. -/
theorem ne_of_shortEscape? {c letter : Char} (h : shortEscape? c = some letter) :
    letter ≠ '\n' := by
  unfold shortEscape? at h
  split at h <;> cases h <;> decide

/-- A line feed is not quoted as it stands: it is not printable, so it is escaped. -/
theorem isLine_char {quote : Char} (hquote : quote ≠ '\n') (c : Char) :
    (char quote c).IsLine := by
  unfold char
  split
  · next hc =>
    refine .append (by decide) (Bytes.lineFeed_notMem_encode ?_)
    rintro rfl
    simp [hquote.symm] at hc
  · split
    · next hprint =>
      refine Bytes.lineFeed_notMem_encode ?_
      rintro rfl
      exact absurd hprint (by decide)
    · split
      · next hletter =>
        exact .append (by decide) (Bytes.lineFeed_notMem_encode (ne_of_shortEscape? hletter))
      · exact isLine_numericEscape c

theorem isLine_unit {quote : Char} (hquote : quote ≠ '\n') (u : TextUnit) :
    (unit quote u).IsLine := by
  cases u with
  | char c => exact isLine_char hquote c
  | stray b => exact .append (by decide) (Bytes.isLine_hexadecimal _ _)

end Quoted

theorem Bytes.isLine_quoted (text : Bytes) : text.quoted.IsLine := by
  refine .append (.append (by decide) fun h => ?_) (by decide)
  obtain ⟨u, -, hu⟩ := List.mem_flatMap.mp h
  exact Quoted.isLine_unit (by decide) u hu

theorem isLine_quotedChar (c : Char) : (quotedChar c).IsLine :=
  .append (.append (by decide) (Quoted.isLine_char (by decide) c)) (by decide)

/-! ## Errors -/

namespace Kind

theorem isLine_name (kind : Kind) : kind.name.IsLine := by
  cases kind with
  | unknown code => exact .append (.append (by decide) (Bytes.isLine_ofInt code)) (by decide)
  | _ => decide

theorem isLine_symbol (kind : Kind) : kind.symbol.IsLine := by
  cases kind with
  | unknown code => exact List.not_mem_nil
  | _ => decide

theorem isLine_description (kind : Kind) : kind.description.IsLine := by
  unfold description
  split
  · exact kind.isLine_name
  · exact .append (.append (by decide) kind.isLine_symbol) (by decide)

end Kind

/-- The message of a fault that is not given in words is a single line. -/
theorem LexError.isLine_message {e : LexError} (h : ∀ words, e.fault ≠ .stated words) :
    e.message.IsLine := by
  refine .append (.append e.pos.isLine_text (by decide)) ?_
  unfold reason
  split
  · exact .append (by decide) (isLine_quotedChar _)
  · decide
  · exact .append (by decide) (Bytes.isLine_digits 16 _)
  · next words hwords => exact absurd hwords (h words)

namespace ParseError

theorem isLine_intercalate {sep : Bytes} (hsep : sep.IsLine) {choices : List Bytes}
    (h : ∀ choice ∈ choices, choice.IsLine) : Bytes.IsLine (List.intercalate sep choices) := by
  induction choices with
  | nil => exact List.not_mem_nil
  | cons choice others ih =>
    obtain ⟨hchoice, hothers⟩ := List.forall_mem_cons.mp h
    cases others with
    | nil => simpa using hchoice
    | cons second others =>
      rw [List.intercalate_cons_cons]
      exact .append (.append hchoice hsep) (ih hothers)

theorem isLine_alternatives {choices : List Bytes} (h : ∀ choice ∈ choices, choice.IsLine) :
    (alternatives choices).IsLine := by
  match choices with
  | [] => decide
  | [choice] => exact h choice (.head _)
  | first :: second :: others =>
    have hlast : ((first :: second :: others).getLastD []).IsLine := by
      rw [List.getLastD_eq_getLast?, List.getLast?_eq_some_getLast (List.cons_ne_nil _ _)]
      exact h _ (List.getLast_mem (List.cons_ne_nil _ _))
    refine .append (.append (isLine_intercalate (by decide) fun choice hc => ?_) (by decide)) hlast
    exact h choice (List.dropLast_subset _ hc)

/-- The message about a token that does not fit is a single line. -/
theorem isLine_message (e : ParseError) : e.message.IsLine := by
  have hfound : e.foundText.IsLine := by
    unfold foundText
    split
    · decide
    · exact .append (.append (Kind.isLine_name _) (by decide)) (Bytes.isLine_quoted _)
  have hexpected : ∀ choice ∈ e.expected.map Kind.description, choice.IsLine := by
    intro choice hchoice
    obtain ⟨kind, -, rfl⟩ := List.mem_map.mp hchoice
    exact kind.isLine_description
  exact .append (.append (.append (.append e.pos.isLine_text (by decide))
    (isLine_alternatives hexpected)) (by decide)) hfound

end ParseError

end Arrowlet
