import Arrowlet.Proofs.Token.Offsets

/-!
# The first fault of a text

Reading a text of characters stops at the first one that it cannot go on with
(`lex_fails_at_first_fault`). `Lexer.Faulty` says which these are: a quote that is not closed on its
line, `<` without `-`, and a character that is no blank and begins no lexeme. These are the places
where the lexer is stuck (`Lexer.stuck_ofChars_iff`).

What stands before is read as if the text ended there, although a lexeme before may have been read
with a look at the fault. What stands behind does not matter beyond the character after the fault,
or for a quote beyond its line, because lexemes before the fault are read from two bytes more
(`Lexeme.read?_congr_take`).
-/

namespace Arrowlet

open Bytes Lexeme

/-! ## Texts that begin with no lexeme -/

namespace Lexeme

variable {kind : Kind} {b : UInt8} {text : Bytes} {cs : List Char}

/-- A mark that is read begins with the first byte of the text. -/
theorem head?_of_mark? (h : mark? (b :: text) = some kind) :
    kind ∈ marks ∧ kind.symbol.head? = some b := by
  obtain ⟨hk, rest, heq, -⟩ := mark?_sound h
  refine ⟨hk, ?_⟩
  rw [← List.head?_append_of_ne_nil _ (mark?_eq_some h).2, ← heq]
  rfl

/-- Every first byte of a mark is a mark on its own, except that of `<-`. -/
theorem less_or_exists_mark (hk : kind ∈ marks) (hb : kind.symbol.head? = some b) :
    b = 0x3c ∨ ∃ alone ∈ marks, alone.symbol = [b] := by
  simp only [marks, List.mem_cons, List.not_mem_nil, or_false] at hk
  rcases hk with rfl | rfl | rfl | rfl | rfl | rfl | rfl | rfl | rfl | rfl <;>
    (cases hb; decide)

/-- Only `<-` begins with `<`. -/
theorem eq_arrow_of_less (hk : kind ∈ marks) (hb : kind.symbol.head? = some 0x3c) :
    kind = .arrow := by
  revert kind
  decide

/-- No lexeme is read at `<` without `-`. -/
theorem read?_less (h : text.head? ≠ some 0x2d) : read? (0x3c :: text) = none := by
  have harrow : Kind.arrow.symbol.head? = some 0x3c := rfl
  rw [read?_mark (by decide) harrow, Option.map_eq_none_iff, Option.eq_none_iff_forall_ne_some]
  intro kind hmark
  obtain ⟨hk, hb⟩ := head?_of_mark? hmark
  obtain rfl := eq_arrow_of_less hk hb
  obtain ⟨-, rest, heq, -⟩ := mark?_sound hmark
  rw [(List.cons.inj heq).2] at h
  exact h rfl

/-- No lexeme is read at a byte that opens no kind. -/
theorem read?_eq_none_of_not_opens (h : ∀ kind, ¬ Opens kind b) : read? (b :: text) = none := by
  have hword : ¬ isWordStart b := fun hb => h .identifier (.word rfl hb)
  have hdigit : ¬ isDigit b := fun hb => h .number (.number hb)
  have hquote : b ≠ quote := fun hb => h .string (hb ▸ .string)
  have hmark : mark? (b :: text) = none := by
    rw [Option.eq_none_iff_forall_ne_some]
    intro kind hmark
    obtain ⟨hk, hb⟩ := head?_of_mark? hmark
    exact h kind (.mark hk hb)
  rw [read?, if_neg hword, if_neg hdigit, if_neg hquote, hmark]
  rfl

/-- No lexeme is read at a quote that is not closed, at `<` without `-`, and at a byte that opens no
kind, and nowhere else. -/
theorem read?_eq_none_iff :
    read? (b :: text) = none ↔
      b = quote ∧ quoted? text = none ∨ b = 0x3c ∧ text.head? ≠ some 0x2d ∨
        ∀ kind, ¬ Opens kind b := by
  constructor
  · intro h
    by_cases hopens : ∀ kind, ¬ Opens kind b
    · exact .inr (.inr hopens)
    simp only [not_forall, not_not] at hopens
    obtain ⟨kind, hopens⟩ := hopens
    cases hopens with
    | word hk hb => rw [read?_wordStart hb] at h; cases h
    | number hb => rw [read?_digit hb] at h; cases h
    | string =>
      rw [read?_quote, Option.map_eq_none_iff] at h
      exact .inl ⟨rfl, h⟩
    | mark hk hb =>
      rw [read?_mark hk hb, Option.map_eq_none_iff, mark?, List.find?_eq_none] at h
      rcases less_or_exists_mark hk hb with rfl | ⟨alone, halone, hsymbol⟩
      · refine .inr (.inl ⟨rfl, fun hhead => ?_⟩)
        obtain ⟨rest, rfl⟩ := List.head?_eq_some_iff.mp hhead
        exact h .arrow (by decide) rfl
      · exact absurd (by simp [hsymbol]) (h alone halone)
  · rintro (⟨rfl, hquoted⟩ | ⟨rfl, hnext⟩ | hnone)
    · rw [read?_quote, hquoted, Option.map_none]
    · exact read?_less hnext
    · exact read?_eq_none_of_not_opens hnone

/-- A byte that opens a kind begins some lexeme. -/
theorem Opens.exists_spelling (h : Opens kind b) : ∃ kind w, IsSpelling kind w ∧ [b] <+: w := by
  cases h with
  | word _ hb =>
    have hword : IsWord [b] := ⟨hb, by simp⟩
    exact ⟨_, [b], hword.isSpelling.1, List.prefix_rfl⟩
  | number hb => exact ⟨.number, [b], .inl ⟨by simp, by simpa using hb⟩, List.prefix_rfl⟩
  | string => exact ⟨.string, _, ⟨[], rfl, by simp⟩, [quote], rfl⟩
  | mark hk hb =>
    obtain ⟨rest, heq⟩ := List.head?_eq_some_iff.mp hb
    exact ⟨kind, kind.symbol, (isSpelling_iff_eq_symbol (by simp [heq])).mpr rfl, rest, heq.symm⟩

/-- A lexeme begins with a character of ASCII. -/
theorem Opens.lt (h : Opens kind b) : b.toNat < 128 := by
  cases h with
  | word _ hb => rw [isWordStart_iff] at hb; omega
  | number hb => rw [isDigit_iff] at hb; omega
  | string => decide
  | mark hk hb =>
    have hmarks : ∀ kind ∈ marks, kind.symbol.all fun b => b.toNat < 128 := by decide
    simpa using List.all_eq_true.mp (hmarks kind hk) b (List.mem_of_head? hb)

/-- All bytes of a character other than a quote and a line feed may stand inside a quoted text. -/
theorem isQuotable_of_mem_encode {c : Char} (hquote : c ≠ '"') (hfeed : c ≠ '\n') :
    ∀ b ∈ String.utf8EncodeChar c, isQuotable b := by
  intro b hb
  rw [isQuotable_iff]
  constructor
  · rintro rfl
    exact hquote (eq_ofUInt8_of_mem_encode hb (by decide))
  · rintro rfl
    exact hfeed (eq_ofUInt8_of_mem_encode hb (by decide))

/-- What a quoted text stops at is a quote exactly if one stands before the end of the line. -/
theorem head?_dropWhile_isQuotable (cs : List Char) :
    ((ofChars cs).dropWhile isQuotable).head? = some quote ↔ '"' ∈ cs.takeWhile (· ≠ '\n') := by
  induction cs with
  | nil => simp
  | cons c cs ih =>
    by_cases hquote : c = '"'
    · subst hquote
      exact ⟨fun _ => .head _, fun _ => rfl⟩
    by_cases hfeed : c = '\n'
    · subst hfeed
      have hstop : ((ofChars ('\n' :: cs)).dropWhile isQuotable).head? = some lineFeed := rfl
      rw [hstop]
      exact ⟨fun h => absurd h (by decide), fun h => by cases h⟩
    · rw [ofChars_cons, List.dropWhile_append_of_pos (isQuotable_of_mem_encode hquote hfeed), ih,
        List.takeWhile_cons_of_pos (by simpa using hfeed), List.mem_cons]
      exact (or_iff_right (Ne.symm hquote)).symm

theorem quoted?_ofChars_eq_none_iff :
    quoted? (ofChars cs) = none ↔ '"' ∉ cs.takeWhile (· ≠ '\n') := by
  rw [← head?_dropWhile_isQuotable, quoted?]
  split
  · next hclosed => exact iff_of_false (Option.some_ne_none _) (not_not.mpr hclosed)
  · next hopen => exact iff_of_true rfl hopen

end Lexeme

/-! ## Characters that reading stops at -/

namespace Lexer

/-- A character that reading stops at, with the characters behind it. -/
inductive Faulty : Char → List Char → Prop
  /-- A quote that is not closed on its line. -/
  | quote {cs : List Char} (line : '"' ∉ cs.takeWhile (· ≠ '\n')) : Faulty '"' cs
  /-- `<` that does not begin an arrow. -/
  | less {cs : List Char} (next : cs.head? ≠ some '-') : Faulty '<' cs
  /-- A character that is no blank and begins no lexeme. -/
  | other {c : Char} {cs : List Char} (blank : c ∉ blanks)
      (start : ∀ kind w, IsSpelling kind w → ¬ String.utf8EncodeChar c <+: w) : Faulty c cs

section
variable {c : Char} {cs : List Char}

/-- The lexer is stuck at a character exactly if reading stops there. -/
theorem stuck_ofChars_iff : Stuck (ofChars (c :: cs)) ↔ Faulty c cs := by
  obtain ⟨b, more, heq, -⟩ := exists_encode_eq_cons c
  have htext : ofChars (c :: cs) = b :: (more ++ ofChars cs) := by
    rw [ofChars_cons, heq, List.cons_append]
  have hblank : c ∈ blanks ↔ isBlank b := by
    rw [mem_blanks_iff, heq]
    simp
  constructor
  · rintro ⟨-, hhead, hread⟩
    rw [htext] at hhead hread
    rcases read?_eq_none_iff.mp hread with ⟨rfl, hquoted⟩ | ⟨rfl, hnext⟩ | hnone
    · obtain rfl : c = '"' := eq_ofUInt8_of_encode heq (by decide)
      cases heq
      exact .quote (quoted?_ofChars_eq_none_iff.mp hquoted)
    · obtain rfl : c = '<' := eq_ofUInt8_of_encode heq (by decide)
      cases heq
      refine .less fun h => hnext ?_
      exact (head?_ofChars_eq_iff (by decide)).mpr h
    · refine .other (fun h => hhead b rfl (hblank.mp h)) fun kind w hw hbegins => ?_
      obtain ⟨b', w', rfl, hopens⟩ := hw.exists_head
      rw [heq, List.cons_prefix_cons] at hbegins
      exact hnone kind (hbegins.1 ▸ hopens)
  · intro h
    cases h with
    | quote line =>
      refine ⟨List.cons_ne_nil _ _, fun b hb => by cases hb; decide, ?_⟩
      exact read?_eq_none_iff.mpr (.inl ⟨rfl, quoted?_ofChars_eq_none_iff.mpr line⟩)
    | less next =>
      refine ⟨List.cons_ne_nil _ _, fun b hb => by cases hb; decide, ?_⟩
      refine read?_eq_none_iff.mpr (.inr (.inl ⟨rfl, fun h => next ?_⟩))
      exact (head?_ofChars_eq_iff (by decide)).mp h
    | other blank start =>
      rw [htext]
      refine ⟨List.cons_ne_nil _ _, fun b' hb' => ?_, ?_⟩
      · cases hb'
        exact fun h => blank (hblank.mpr h)
      · refine read?_eq_none_iff.mpr (.inr (.inr fun kind hopens => ?_))
        obtain ⟨kind', w, hw, hbegins⟩ := hopens.exists_spelling
        have hc := eq_ofUInt8_of_encode heq hopens.lt
        rw [← encode_ofUInt8 hopens.lt, ← hc] at hbegins
        exact start kind' w hw hbegins

/-- A quote that reading stops at is not closed on its line. -/
theorem Faulty.quote_line (h : Faulty '"' cs) : '"' ∉ cs.takeWhile (· ≠ '\n') := by
  cases h with
  | quote line => exact line
  | other _ start => exact absurd ⟨[Bytes.quote], rfl⟩ (start .string _ ⟨[], rfl, by simp⟩)

/-- The character after it decides whether reading stops at a character other than a quote. -/
theorem Faulty.congr_head {ds : List Char} (h : Faulty c cs) (hc : c ≠ '"')
    (hhead : ds.head? = cs.head?) : Faulty c ds := by
  cases h with
  | quote => exact absurd rfl hc
  | less next => exact .less (hhead ▸ next)
  | other blank start => exact .other blank start

/-- The line decides whether reading stops at a quote. -/
theorem Faulty.congr_line {j : Nat} (h : Faulty '"' cs) (hj : cs[j]? = some '\n')
    (ds : List Char) : Faulty '"' (cs.take (j + 1) ++ ds) := by
  obtain ⟨hlt, hget⟩ := List.getElem?_eq_some_iff.mp hj
  have hsame : ∀ es es' : List Char, (cs.take (j + 1) ++ es).takeWhile (· ≠ '\n') =
      (cs.take (j + 1) ++ es').takeWhile (· ≠ '\n') := by
    intro es es'
    rw [← List.take_append_getElem hlt, hget]
    simp only [List.append_assoc, List.singleton_append, List.takeWhile_append]
    rw [List.takeWhile_cons_of_neg (by simp), List.takeWhile_cons_of_neg (by simp)]
  refine .quote ?_
  rw [hsame ds (cs.drop (j + 1)), List.take_append_drop]
  exact h.quote_line

/-- The fault at a character. -/
theorem fault_ofChars (c : Char) (cs : List Char) (pos : Position) :
    (⟨ofChars (c :: cs), pos⟩ : Lexer).fault =
      ⟨c.toNat, pos, if c = '"' then .unterminated else .unexpected⟩ := by
  have hquote : (ofChars (c :: cs)).head? = some quote ↔ c = '"' := by
    rw [head?_ofChars_eq_iff (by decide), List.head?_cons, Option.some.injEq]
    rfl
  have hfirst : (ofChars (c :: cs)).firstChar? = some c := by
    rw [ofChars_cons, firstChar?_encode_append]
  simp only [fault, hfirst, hquote, Option.getD_some]

/-- Two characters decide about the first two bytes. -/
theorem take_ofChars_congr {ds : List Char} (hhead : ds.head? = cs.head?) (c : Char) :
    (ofChars (c :: ds)).take 2 = (ofChars (c :: cs)).take 2 := by
  cases cs with
  | nil =>
    rw [List.head?_nil, List.head?_eq_none_iff] at hhead
    rw [hhead]
  | cons x cs =>
    obtain ⟨ds, rfl⟩ := List.head?_eq_some_iff.mp hhead
    obtain ⟨b, more, hc, -⟩ := exists_encode_eq_cons c
    obtain ⟨b', more', hx, -⟩ := exists_encode_eq_cons x
    have hlong : 2 ≤ (String.utf8EncodeChar c ++ String.utf8EncodeChar x).length := by
      simp only [hc, hx, List.length_append, List.length_cons]
      omega
    simp only [ofChars_cons, ← List.append_assoc]
    rw [List.take_append_of_le_length hlong, List.take_append_of_le_length hlong]

end

end Lexer

theorem lex_ofChars (cs : List Char) : lex (ofChars cs) = (Lexer.ofText (ofChars cs)).tokens :=
  lex_of_isEncoded (isEncoded_ofChars cs)

/-! ## The first fault -/

/-- Reading the characters before a faulty one and those behind it gives an error. -/
structure StopsAt (before : List Char) (c : Char) (more : List Char) (e : LexError) : Prop where
  faulty : Lexer.Faulty c more
  error : e = ⟨c.toNat, .ofOffset before before.length,
    if c = '"' then .unterminated else .unexpected⟩
  readable : ∃ ts, lex (ofChars before) = .ok ts
  /-- The same error comes before anything that reading stops at and that begins alike. -/
  again : ∀ more', Lexer.Faulty c more' → more'.head? = more.head? →
    lex (ofChars (before ++ c :: more')) = .error e

theorem exists_stopsAt {cs : List Char} {e : LexError} (h : lex (ofChars cs) = .error e) :
    ∃ before c more, cs = before ++ c :: more ∧ StopsAt before c more e := by
  rw [lex_ofChars] at h
  obtain ⟨d, rest, hd, hcs, hstuck, he, hagain⟩ := Lexer.tokens_eq_error h
  have htext : ofChars cs = d.text ++ rest := hcs
  obtain ⟨before, after, rfl, hbefore, rfl⟩ := exists_ofChars_of_append htext
    (hd.isEncoded_of_append (htext ▸ isEncoded_ofChars cs)).1
  have hpos : (Lexer.ofText (ofChars (before ++ after))).pos.after d.text =
      .ofOffset before before.length := by
    rw [hbefore, ← Position.after_ofChars_length]
    rfl
  obtain ⟨c, more, rfl⟩ : ∃ c more, after = c :: more := by
    refine List.exists_cons_of_ne_nil fun hnil => hstuck.ne_nil ?_
    rw [hnil, ofChars_nil]
  rw [hpos, Lexer.fault_ofChars] at he
  refine ⟨before, c, more, rfl, Lexer.stuck_ofChars_iff.mp hstuck, he, ?_, ?_⟩
  · exact ⟨d.tokens, lex_eq_ok_iff.mpr ⟨isEncoded_ofChars before, d, hd, hbefore, rfl⟩⟩
  · intro more' hfaulty hhead
    have htokens := hagain _ (Lexer.stuck_ofChars_iff.mpr hfaulty)
      (Lexer.take_ofChars_congr hhead c)
    rw [hpos, Lexer.fault_ofChars] at htokens
    rw [lex_ofChars, he, ofChars_append, ← hbefore]
    exact htokens

namespace StopsAt

variable {before more ds : List Char} {c : Char} {e : LexError}

theorem pos_eq (h : StopsAt before c more e) : e.pos = .ofOffset before before.length := by
  rw [h.error]

/-- The characters before the fault are read alone, up to the position of the fault. -/
theorem exists_tokens (h : StopsAt before c more e) :
    ∃ ts, (∀ t ∈ ts, t.kind ≠ .eof) ∧ lex (ofChars before) = .ok (ts ++ [⟨.eof, [], e.pos⟩]) := by
  obtain ⟨ts, hts⟩ := h.readable
  obtain ⟨placed, rfl, hplaced⟩ := exists_placement hts
  refine ⟨placed.map Prod.fst, fun t ht => ?_, h.pos_eq ▸ hts⟩
  obtain ⟨x, hx, rfl⟩ := List.mem_map.mp ht
  exact (hplaced.stands x hx).kind

/-- The message is that of an open quote exactly at a quote that is not closed on its line. -/
theorem reason_eq_iff (h : StopsAt before c more e) :
    e.reason = "unterminated string literal" ↔ c = '"' ∧ '"' ∉ more.takeWhile (· ≠ '\n') := by
  obtain ⟨hfaulty, rfl, -, -⟩ := h
  by_cases hc : c = '"'
  · subst hc
    exact iff_of_true rfl ⟨rfl, hfaulty.quote_line⟩
  · refine iff_of_false (fun hreason => ?_) fun hquote => hc hquote.1
    -- The messages differ in their third byte.
    have htake := congrArg (List.take 3) hreason
    rw [LexError.reason, if_neg hc] at htake
    rw [List.take_append_of_le_length (by decide)] at htake
    exact absurd htake (by decide)

/-- One character behind the fault is enough for the error, if the fault is no quote. -/
theorem of_next (h : StopsAt before c more e) (hc : c ≠ '"') (hmore : more ≠ [])
    (hds : before ++ c :: more.take 1 <+: ds) : lex (ofChars ds) = .error e := by
  obtain ⟨x, more, rfl⟩ := List.exists_cons_of_ne_nil hmore
  obtain ⟨behind, rfl⟩ := hds
  rw [List.append_assoc]
  exact h.again (x :: behind) (h.faulty.congr_head hc rfl) rfl

/-- The rest of the line is enough for the error at a quote. -/
theorem of_line {j : Nat} (h : StopsAt before '"' more e) (hj : more[j]? = some '\n')
    (hds : before ++ '"' :: more.take (j + 1) <+: ds) : lex (ofChars ds) = .error e := by
  obtain ⟨behind, rfl⟩ := hds
  rw [List.append_assoc]
  refine h.again (more.take (j + 1) ++ behind) (h.faulty.congr_line hj behind) ?_
  cases more with
  | nil => cases hj
  | cons x more => rfl

end StopsAt

/-- The error of a text is at the character with the number `k`, and it is the first one that
reading stops at. -/
structure FirstFault (cs : List Char) (k : Nat) (c : Char) (e : LexError) : Prop where
  offset : cs[k]? = some c
  char : e.char = c.toNat
  pos : e.pos = .ofOffset cs k
  /-- The characters before are read alone, up to the same position. -/
  before : ∃ ts, (∀ t ∈ ts, t.kind ≠ .eof) ∧
    lex (ofChars (cs.take k)) = .ok (ts ++ [⟨.eof, [], e.pos⟩])
  faulty : Lexer.Faulty c (cs.drop (k + 1))
  reason : e.reason = "unterminated string literal" ↔
    c = '"' ∧ '"' ∉ (cs.drop (k + 1)).takeWhile (· ≠ '\n')
  /-- One more character is enough for the error, if there is one and the fault is no quote. -/
  next : c ≠ '"' → k + 1 < cs.length → ∀ ds, cs.take (k + 2) <+: ds → lex (ofChars ds) = .error e
  /-- The line is enough for the error at a quote, if it ends. -/
  line : c = '"' → ∀ m, k ≤ m → cs[m]? = some '\n' → ∀ ds, cs.take (m + 1) <+: ds →
    lex (ofChars ds) = .error e

/-- **Reading fails at the first character that it cannot go on with.** In a text of characters, the
characters before the fault are read alone up to its position, and the fault does not depend on what
stands after the next character, or for a quote after the end of its line. -/
theorem lex_fails_at_first_fault {src : Bytes} {e : LexError} (hsrc : src.IsEncoded)
    (h : lex src = .error e) : ∃ cs k c, src = ofChars cs ∧ FirstFault cs k c e := by
  obtain ⟨cs, rfl⟩ := hsrc
  obtain ⟨before, c, more, rfl, hstop⟩ := exists_stopsAt h
  have hdrop : (before ++ c :: more).drop (before.length + 1) = more :=
    List.drop_length_add_append 1
  refine ⟨before ++ c :: more, before.length, c, rfl, {
    offset := ?offset, char := by rw [hstop.error], pos := ?pos, before := ?before
    faulty := hdrop.symm ▸ hstop.faulty, reason := hdrop.symm ▸ hstop.reason_eq_iff
    next := ?next, line := ?line }⟩
  case offset =>
    rw [List.getElem?_append_right (Nat.le_refl _), Nat.sub_self]
    rfl
  case pos => rw [Position.ofOffset_append (Nat.le_refl _), hstop.pos_eq]
  case before =>
    rw [List.take_left]
    exact hstop.exists_tokens
  case next =>
    intro hc hlength ds hds
    rw [List.take_length_add_append] at hds
    refine hstop.of_next hc (fun hnil => ?_) hds
    simp [hnil] at hlength
  case line =>
    rintro rfl m hm hfeed ds hds
    rw [List.getElem?_append_right hm] at hfeed
    obtain ⟨n, rfl⟩ := Nat.exists_eq_add_of_le hm
    rw [Nat.add_sub_cancel_left] at hfeed
    -- The quote itself is no line feed.
    cases n with
    | zero => exact absurd hfeed (by simp)
    | succ j =>
      rw [Nat.add_assoc, List.take_length_add_append] at hds
      exact hstop.of_line hfeed hds

/-- A point after digits is looked at with the character after it, before it is refused. -/
theorem lex_fails_at_first_fault_point :
    IsEncoded "x <- 1.;" ∧ lex "x <- 1.;" = .error ⟨46, ⟨1, 7⟩, .unexpected⟩ ∧
      ∃ cs k c, ("x <- 1.;" : Bytes) = ofChars cs ∧
        FirstFault cs k c ⟨46, ⟨1, 7⟩, .unexpected⟩ := by
  have hsrc : IsEncoded "x <- 1.;" := ⟨"x <- 1.;".toList, by decide +kernel⟩
  have hlex : lex "x <- 1.;" = .error ⟨46, ⟨1, 7⟩, .unexpected⟩ := by decide +kernel
  exact ⟨hsrc, hlex, lex_fails_at_first_fault hsrc hlex⟩

end Arrowlet
