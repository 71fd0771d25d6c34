import Arrowlet.Token.Lexer

/-!
# How tokens are spelled

`Lexeme.IsSpelling kind w` says that the text `w` spells a token of the given kind: a word that is
no keyword, a number, a quoted text, or the symbol of the kind. Every lexeme that is read is such a
spelling, and it is read as far as it goes (`Lexeme.read?_sound`): the byte after it does not go on
with it. Conversely a spelling is read as it stands if the byte after it does not go on with it
(`Lexeme.read?_complete`). What may go on is decided by single bytes: a word goes on with letters,
digits and `_`, a number with digits or a point, an opening parenthesis with `&`.

A spelling begins with a byte that tells its kind apart (`Lexeme.IsSpelling.exists_head`). No blank,
point or `&` is such a byte, so a spelling after a spelling is a danger only to words and numbers:
`Kind.joins` lists these cases.

How far a lexeme goes is seen from two bytes after it (`Lexeme.read?_congr_take`). One is enough
except for a number before a point, which goes on if a digit comes next.
-/

namespace Arrowlet

/-- Identifiers and keywords. -/
def Kind.isWord : Kind → Bool
  | identifier | define | write | read => true
  | _ => false

/-- Whether a token of the second kind right after a token of the first is read as a part of it. -/
def Kind.joins (first second : Kind) : Bool :=
  first.isWord && (second.isWord || second = .number) || first = .number && second = .number

namespace Lexeme

/-! ## Spellings -/

/-- A letter or `_`, then letters, digits and `_`. -/
def IsWord : Bytes → Prop
  | [] => False
  | b :: rest => isWordStart b ∧ ∀ c ∈ rest, isWordPart c

/-- One digit or more. -/
def IsDigits (w : Bytes) : Prop := w ≠ [] ∧ ∀ b ∈ w, Bytes.isDigit b

/-- Digits, or digits with a point between them. -/
def IsNumber (w : Bytes) : Prop :=
  IsDigits w ∨ ∃ whole part, w = whole ++ Bytes.dot :: part ∧ IsDigits whole ∧ IsDigits part

/-- A text between quotes that holds no quote and no line feed. -/
def IsQuoted (w : Bytes) : Prop :=
  ∃ body, w = Bytes.quote :: body ++ [Bytes.quote] ∧
    ∀ b ∈ body, b ≠ Bytes.quote ∧ b ≠ Bytes.lineFeed

/-- The keywords. -/
def keywords : List Kind := [.define, .write, .read]

/-- The text `w` spells a token of a kind. -/
def IsSpelling (kind : Kind) (w : Bytes) : Prop :=
  match kind with
  | .identifier => IsWord w ∧ ∀ keyword ∈ keywords, w ≠ keyword.symbol
  | .number => IsNumber w
  | .string => IsQuoted w
  | .eof | .unknown _ => False
  | _ => w = kind.symbol

/-- A kind with a symbol is spelled like that. -/
theorem isSpelling_iff_eq_symbol {kind : Kind} {w : Bytes} (h : kind.symbol ≠ []) :
    IsSpelling kind w ↔ w = kind.symbol := by
  cases kind <;> first | exact Iff.rfl | exact absurd rfl h

/-! ## Runs of bytes -/

section
variable {p : UInt8 → Bool} {w rest : Bytes}

/-- A run of bytes is taken as far as it goes. -/
theorem takeWhile_append_of_boundary (hw : ∀ b ∈ w, p b) (hrest : ∀ b ∈ rest.head?, ¬ p b) :
    (w ++ rest).takeWhile p = w := by
  rw [List.takeWhile_append_of_pos hw]
  cases rest with
  | nil => simp
  | cons b rest => simp [hrest b rfl]

/-- What is left after a run of bytes begins where it stops. -/
theorem dropWhile_append_of_boundary (hw : ∀ b ∈ w, p b) (hrest : ∀ b ∈ rest.head?, ¬ p b) :
    (w ++ rest).dropWhile p = rest := by
  rw [List.dropWhile_append_of_pos hw]
  cases rest with
  | nil => rfl
  | cons b rest => simp [hrest b rfl]

theorem of_mem_takeWhile {text : Bytes} {b : UInt8} (h : b ∈ text.takeWhile p) : p b :=
  List.all_eq_true.mp List.all_takeWhile b h

theorem boundary_dropWhile (text : Bytes) : ∀ b ∈ (text.dropWhile p).head?, ¬ p b := by
  intro b hb
  have h := List.head?_dropWhile_not p text
  rw [Option.mem_def.mp hb] at h
  simpa using h

end

/-! ## Classes of bytes -/

section
variable {b : UInt8}

theorem isDigit_iff : Bytes.isDigit b ↔ 48 ≤ b.toNat ∧ b.toNat ≤ 57 := by
  simp [Bytes.isDigit, UInt8.le_iff_toNat_le]

theorem isWordStart_iff : isWordStart b ↔
    65 ≤ b.toNat ∧ b.toNat ≤ 90 ∨ 97 ≤ b.toNat ∧ b.toNat ≤ 122 ∨ b.toNat = 95 := by
  simp [isWordStart, Bytes.isLetter, UInt8.le_iff_toNat_le, ← UInt8.toNat_inj, or_assoc]

theorem isWordPart_iff : isWordPart b ↔ isWordStart b ∨ Bytes.isDigit b := by
  simp [isWordPart]

theorem isBlank_iff : isBlank b ↔
    b.toNat = 32 ∨ b.toNat = 9 ∨ b.toNat = 13 ∨ b.toNat = 10 := by
  simp [isBlank, Bytes.space, Bytes.tab, Bytes.carriageReturn, Bytes.lineFeed, ← UInt8.toNat_inj,
    or_assoc]

/-- Whether a lexeme of a kind might go on with a byte. -/
def continues (kind : Kind) (b : UInt8) : Bool :=
  match kind with
  | .identifier | .define | .write | .read => isWordPart b
  | .number => Bytes.isDigit b || b = Bytes.dot
  | .lparen => b = 0x26
  | _ => false

/-- The bytes that the lexemes of a kind begin with. -/
inductive Opens : Kind → UInt8 → Prop
  | word {kind : Kind} {b : UInt8} (hk : kind.isWord) (hb : isWordStart b) : Opens kind b
  | number {b : UInt8} (hb : Bytes.isDigit b) : Opens .number b
  | string : Opens .string Bytes.quote
  | mark {kind : Kind} {b : UInt8} (hk : kind ∈ marks) (hb : kind.symbol.head? = some b) :
      Opens kind b

/-- The first byte of a mark is none that a word, a number or a quoted text begins with, no blank,
no point and no `&`. -/
theorem mark_head_cases {kind : Kind} (hk : kind ∈ marks) (hb : kind.symbol.head? = some b) :
    isWordPart b = false ∧ Bytes.isDigit b = false ∧ b ≠ Bytes.quote ∧ isBlank b = false ∧
      b ≠ Bytes.dot ∧ b ≠ 0x26 := by
  simp only [marks, List.mem_cons, List.not_mem_nil, or_false] at hk
  rcases hk with rfl | rfl | rfl | rfl | rfl | rfl | rfl | rfl | rfl | rfl <;>
    (cases hb; decide)

/-- No lexeme begins with a blank, a point or `&`. -/
theorem Opens.head_cases {kind : Kind} (h : Opens kind b) :
    isBlank b = false ∧ b ≠ Bytes.dot ∧ b ≠ 0x26 := by
  cases h with
  | word _ hb =>
    rw [isWordStart_iff] at hb
    simp only [Bool.eq_false_iff, ne_eq, isBlank_iff, Bytes.dot, ← UInt8.toNat_inj,
      UInt8.reduceToNat]
    omega
  | number hb =>
    rw [isDigit_iff] at hb
    simp only [Bool.eq_false_iff, ne_eq, isBlank_iff, Bytes.dot, ← UInt8.toNat_inj,
      UInt8.reduceToNat]
    omega
  | string => decide
  | mark hk hb => exact (mark_head_cases hk hb).2.2.2

/-- A mark is no word and no number. -/
theorem isWord_eq_false_of_mem_marks {kind : Kind} (hk : kind ∈ marks) :
    kind.isWord = false ∧ kind ≠ .number := by
  revert kind
  decide

/-- A mark joins with nothing. -/
theorem joins_eq_false_of_mem_marks {first second : Kind} (h : first ∈ marks ∨ second ∈ marks) :
    first.joins second = false := by
  rcases h with h | h <;>
    simp [Kind.joins, isWord_eq_false_of_mem_marks h]

/-- What begins a lexeme is a part of a word exactly if the lexeme is a word or a number. -/
theorem Opens.isWordPart_eq {kind : Kind} (h : Opens kind b) :
    isWordPart b = (kind.isWord || kind = .number) := by
  cases h with
  | word hk hb => simp [isWordPart, hk, hb]
  | number hb => simp [isWordPart, hb]
  | string => decide
  | mark hk hb =>
    obtain ⟨hword, hnumber⟩ := isWord_eq_false_of_mem_marks hk
    simp [(mark_head_cases hk hb).1, hword, hnumber]

/-- What begins a lexeme is a digit exactly if the lexeme is a number. -/
theorem Opens.isDigit_eq {kind : Kind} (h : Opens kind b) :
    Bytes.isDigit b = decide (kind = .number) := by
  cases h with
  | word hk hb =>
    have hdigit : ¬ Bytes.isDigit b := by
      rw [isWordStart_iff] at hb
      rw [isDigit_iff]
      omega
    have hnumber : kind ≠ .number := by
      rintro rfl
      cases hk
    simp [hdigit, hnumber]
  | number hb => simp [hb]
  | string => decide
  | mark hk hb =>
    simp [(mark_head_cases hk hb).2.1, (isWord_eq_false_of_mem_marks hk).2]

/-- A lexeme right after another might go on with it exactly if their kinds join. -/
theorem Opens.continues_eq {first second : Kind} (h : Opens second b) :
    continues first b = first.joins second := by
  obtain ⟨-, hdot, hamp⟩ := h.head_cases
  cases first <;>
    simp [continues, Kind.joins, Kind.isWord, h.isWordPart_eq, h.isDigit_eq, hdot, hamp]

/-- No lexeme goes on with a blank. -/
theorem continues_eq_false_of_isBlank (kind : Kind) (h : isBlank b) : continues kind b = false := by
  simp only [isBlank, Bool.or_eq_true, decide_eq_true_eq] at h
  rcases h with ((rfl | rfl) | rfl) | rfl <;> cases kind <;> rfl

end

/-! ## Spellings, kind by kind -/

section
variable {w rest : Bytes}

/-- All bytes of a word are parts of a word. -/
theorem IsWord.isWordPart (h : IsWord w) : ∀ b ∈ w, isWordPart b := by
  cases w with
  | nil => simp
  | cons b w =>
    intro c hc
    rcases List.mem_cons.mp hc with rfl | hc
    · exact isWordPart_iff.mpr (.inl h.1)
    · exact h.2 c hc

/-- A keyword is spelled like a word. -/
theorem isWord_symbol {kind : Kind} (h : kind ∈ keywords) : IsWord kind.symbol := by
  simp only [keywords, List.mem_cons, List.not_mem_nil, or_false] at h
  rcases h with rfl | rfl | rfl <;> exact ⟨by decide, List.all_eq_true.mp (by decide)⟩

/-- A word spells a token of its kind. -/
theorem IsWord.isSpelling (h : IsWord w) : IsSpelling (wordKind w) w ∧ (wordKind w).isWord := by
  rw [wordKind]
  cases hfind : [Kind.define, .write, .read].find? fun kind => kind.symbol = w with
  | none =>
    refine ⟨⟨h, fun keyword hk heq => ?_⟩, rfl⟩
    have := List.find?_eq_none.mp hfind keyword hk
    exact this (decide_eq_true heq.symm)
  | some kind =>
    have hk := List.mem_of_find?_eq_some hfind
    have hw := List.find?_some hfind
    rw [decide_eq_true_eq] at hw
    simp only [List.mem_cons, List.not_mem_nil, or_false] at hk
    rcases hk with rfl | rfl | rfl <;> exact ⟨hw.symm, rfl⟩

/-- A spelling of a word kind is a word of that kind. -/
theorem IsSpelling.word {kind : Kind} (h : IsSpelling kind w) (hk : kind.isWord) :
    IsWord w ∧ wordKind w = kind := by
  cases kind <;> try cases hk
  case identifier =>
    refine ⟨h.1, ?_⟩
    have hnone : [Kind.define, .write, .read].find? (fun kind => kind.symbol = w) = none :=
      List.find?_eq_none.mpr fun keyword hk => by simpa using (h.2 keyword hk).symm
    rw [wordKind, hnone]
    rfl
  all_goals
    have hw : w = _ := h
    subst hw
    exact ⟨isWord_symbol (by decide), by decide⟩

/-- The digits that a text begins with are taken as far as they go. -/
theorem number_digits (hw : IsDigits w) (hrest : ∀ b ∈ rest.head?, ¬ Bytes.isDigit b) :
    number (w ++ rest) = w ++ fraction rest := by
  rw [number, takeWhile_append_of_boundary hw.2 hrest, dropWhile_append_of_boundary hw.2 hrest]

/-- A point and digits are a fraction, as far as the digits go. -/
theorem fraction_dot (hw : IsDigits w) (hrest : ∀ b ∈ rest.head?, ¬ Bytes.isDigit b) :
    fraction (Bytes.dot :: w ++ rest) = Bytes.dot :: w := by
  obtain ⟨hne, hdigits⟩ := hw
  cases w with
  | nil => exact absurd rfl hne
  | cons b w =>
    simp only [List.cons_append, fraction, decide_true, Bool.true_and, hdigits b (by simp),
      if_true]
    rw [takeWhile_append_of_boundary (fun c hc => hdigits c (by simp [hc])) hrest]

/-- Only a point begins a fraction. -/
theorem fraction_eq_nil (hrest : ∀ b ∈ rest.head?, b ≠ Bytes.dot) : fraction rest = [] := by
  unfold fraction
  split
  · next point digit rest =>
    have := hrest point rfl
    simp [this]
  · rfl

/-- A number is read as it stands if neither a digit nor a point follows. -/
theorem number_complete (hw : IsNumber w)
    (hrest : ∀ b ∈ rest.head?, ¬ Bytes.isDigit b ∧ b ≠ Bytes.dot) : number (w ++ rest) = w := by
  have hdigit : ∀ b ∈ rest.head?, ¬ Bytes.isDigit b := fun b hb => (hrest b hb).1
  rcases hw with hw | ⟨whole, part, rfl, hwhole, hpart⟩
  · rw [number_digits hw hdigit, fraction_eq_nil fun b hb => (hrest b hb).2, List.append_nil]
  · rw [List.append_assoc, number_digits hwhole (by simp; decide), fraction_dot hpart hdigit]

/-- A fraction that is read is a point and digits, as far as these go. -/
theorem fraction_sound (text : Bytes) :
    fraction text = [] ∨ ∃ part rest, fraction text = Bytes.dot :: part ∧ IsDigits part ∧
      text = Bytes.dot :: part ++ rest ∧ ∀ b ∈ rest.head?, ¬ Bytes.isDigit b := by
  unfold fraction
  split
  · next point digit text =>
    split
    · next h =>
      rw [Bool.and_eq_true, decide_eq_true_eq] at h
      obtain ⟨rfl, hdigit⟩ := h
      refine .inr ⟨_, _, rfl, ⟨by simp, fun b hb => ?_⟩, ?_, boundary_dropWhile text⟩
      · rcases List.mem_cons.mp hb with rfl | hb
        · exact hdigit
        · exact of_mem_takeWhile hb
      · simp [List.takeWhile_append_dropWhile]
    · exact .inl rfl
  · exact .inl rfl

/-- A number that is read is one, and no digit follows it. -/
theorem number_sound {b : UInt8} {text : Bytes} (hb : Bytes.isDigit b) :
    ∃ rest, b :: text = number (b :: text) ++ rest ∧ IsNumber (number (b :: text)) ∧
      ∀ c ∈ rest.head?, ¬ Bytes.isDigit c := by
  have hwhole : IsDigits ((b :: text).takeWhile Bytes.isDigit) :=
    ⟨by simp [hb], fun c hc => of_mem_takeWhile hc⟩
  have hsplit := List.takeWhile_append_dropWhile (p := Bytes.isDigit) (l := b :: text)
  rcases fraction_sound ((b :: text).dropWhile Bytes.isDigit) with hnil | ⟨part, rest, hfrac, hpart,
    hrest, hend⟩
  · rw [number, hnil, List.append_nil]
    exact ⟨_, hsplit.symm, .inl hwhole, boundary_dropWhile _⟩
  · rw [number, hfrac]
    refine ⟨rest, ?_, .inr ⟨_, part, rfl, hwhole, hpart⟩, hend⟩
    rw [List.append_assoc, ← hrest, hsplit]

theorem isQuotable_iff {b : UInt8} :
    isQuotable b ↔ b ≠ Bytes.quote ∧ b ≠ Bytes.lineFeed := by
  simp [isQuotable]

/-- A quoted text that is read is one. -/
theorem quoted?_sound {body : Bytes} (h : quoted? body = some w) :
    ∃ rest, Bytes.quote :: body = w ++ rest ∧ IsQuoted w := by
  unfold quoted? at h
  split at h
  · next hquote =>
    cases h
    obtain ⟨rest, hrest⟩ := List.head?_eq_some_iff.mp hquote
    refine ⟨rest, ?_, _, rfl, fun b hb => isQuotable_iff.mp (of_mem_takeWhile hb)⟩
    have hsplit := List.takeWhile_append_dropWhile (p := isQuotable) (l := body)
    rw [hrest] at hsplit
    simp [hsplit]
  · cases h

/-- A quoted text is read as it stands. -/
theorem quoted?_complete {body : Bytes}
    (h : ∀ b ∈ body, b ≠ Bytes.quote ∧ b ≠ Bytes.lineFeed) :
    quoted? (body ++ Bytes.quote :: rest) = some (Bytes.quote :: body ++ [Bytes.quote]) := by
  have hbody : ∀ b ∈ body, isQuotable b := fun b hb => isQuotable_iff.mpr (h b hb)
  have hquote : ∀ b ∈ (Bytes.quote :: rest).head?, ¬ isQuotable b := by
    intro b hb
    cases hb
    decide
  rw [quoted?, takeWhile_append_of_boundary hbody hquote,
    dropWhile_append_of_boundary hbody hquote]
  exact if_pos rfl

/-- A mark that is read stands there, and it does not go on. -/
theorem mark?_sound {kind : Kind} {text : Bytes} (h : mark? text = some kind) :
    kind ∈ marks ∧ ∃ rest, text = kind.symbol ++ rest ∧
      ∀ b ∈ rest.head?, continues kind b = false := by
  refine ⟨List.mem_of_find?_eq_some h, ?_⟩
  have hprefix := List.find?_some h
  obtain ⟨rest, rfl⟩ := List.isPrefixOf_iff_prefix.mp hprefix
  refine ⟨rest, rfl, fun b hb => Bool.eq_false_iff.mpr fun hcont => ?_⟩
  have hk := List.mem_of_find?_eq_some h
  simp only [marks, List.mem_cons, List.not_mem_nil, or_false] at hk
  rcases hk with rfl | rfl | rfl | rfl | rfl | rfl | rfl | rfl | rfl | rfl <;> try cases hcont
  -- Before `(` alone is tried, `(&` has been.
  obtain ⟨rest, rfl⟩ := List.head?_eq_some_iff.mp hb
  rw [of_decide_eq_true hcont] at h
  cases h

/-- A mark is read as it stands if it does not go on. -/
theorem mark?_complete {kind : Kind} (hk : kind ∈ marks)
    (hrest : ∀ b ∈ rest.head?, continues kind b = false) :
    mark? (kind.symbol ++ rest) = some kind := by
  simp only [marks, List.mem_cons, List.not_mem_nil, or_false] at hk
  rcases hk with rfl | rfl | rfl | rfl | rfl | rfl | rfl | rfl | rfl | rfl
  case inr.inr.inl =>
    -- `(` is a beginning of `(&`, the only mark that begins another one.
    cases rest with
    | nil => rfl
    | cons b rest =>
      have hb : b ≠ 0x26 := of_decide_eq_false (hrest b rfl)
      have hscan : Kind.scanAddr.symbol.isPrefixOf (Kind.lparen.symbol ++ b :: rest) = false := by
        change (((0x26 : UInt8) == b) && true) = false
        simp [hb.symm]
      rw [mark?, marks, List.find?_cons_of_neg (by simp [hscan])]
      rfl
  all_goals rfl

end

/-! ## Reading a lexeme -/

/-- A spelling begins with a byte that opens its kind. -/
theorem IsSpelling.exists_head {kind : Kind} {w : Bytes} (h : IsSpelling kind w) :
    ∃ b rest, w = b :: rest ∧ Opens kind b := by
  by_cases hword : kind.isWord
  · have hw := (h.word hword).1
    cases w with
    | nil => exact hw.elim
    | cons b rest => exact ⟨b, rest, rfl, .word hword hw.1⟩
  · cases kind <;> try exact absurd rfl hword
    case eof | unknown => exact h.elim
    case number =>
      rcases h with ⟨hne, hdigits⟩ | ⟨whole, part, rfl, ⟨hne, hdigits⟩, -⟩
      · obtain ⟨b, rest, rfl⟩ := List.exists_cons_of_ne_nil hne
        exact ⟨b, rest, rfl, .number (hdigits b (by simp))⟩
      · obtain ⟨b, rest, rfl⟩ := List.exists_cons_of_ne_nil hne
        exact ⟨b, _, List.cons_append .., .number (hdigits b (by simp))⟩
    case string =>
      obtain ⟨body, rfl, -⟩ := h
      exact ⟨_, _, List.cons_append .., .string⟩
    all_goals
      have hw : w = _ := h
      subst hw
      exact ⟨_, _, rfl, .mark (by decide) rfl⟩

/-- A number holds digits and a point only. -/
theorem IsNumber.isDigit_or_eq_dot {w : Bytes} (h : IsNumber w) :
    ∀ b ∈ w, Bytes.isDigit b ∨ b = Bytes.dot := by
  rcases h with h | ⟨whole, part, rfl, hwhole, hpart⟩
  · exact fun b hb => .inl (h.2 b hb)
  · intro b hb
    rcases List.mem_append.mp hb with hb | hb
    · exact .inl (hwhole.2 b hb)
    · rcases List.mem_cons.mp hb with rfl | hb
      · exact .inr rfl
      · exact .inl (hpart.2 b hb)

/-- A lexeme that is read is a spelling of its kind. It is read as far as it goes, except that a
number may be followed by a point. -/
theorem read?_sound {text lexeme : Bytes} {kind : Kind} (h : read? text = some (kind, lexeme)) :
    ∃ rest, text = lexeme ++ rest ∧ IsSpelling kind lexeme ∧
      ∀ b ∈ rest.head?, continues kind b → b = Bytes.dot := by
  cases text with
  | nil => cases h
  | cons b text =>
    simp only [read?] at h
    split at h
    · next hb =>
      cases h
      have hword : IsWord ((b :: text).takeWhile isWordPart) := by
        rw [List.takeWhile_cons_of_pos (isWordPart_iff.mpr (.inl hb))]
        exact ⟨hb, fun c hc => of_mem_takeWhile hc⟩
      refine ⟨_, List.takeWhile_append_dropWhile.symm, hword.isSpelling.1, fun c hc hcont => ?_⟩
      have hkind := hword.isSpelling.2
      have hpart := boundary_dropWhile _ c hc
      revert hkind hcont
      cases wordKind ((b :: text).takeWhile isWordPart) <;> simp_all [continues, Kind.isWord]
    · split at h
      · next hb =>
        cases h
        obtain ⟨rest, hrest, hnumber, hend⟩ := number_sound hb
        refine ⟨rest, hrest, hnumber, fun c hc hcont => ?_⟩
        simpa [continues, hend c hc] using hcont
      · split at h
        · next hb =>
          subst hb
          obtain ⟨w, hw, heq⟩ := Option.map_eq_some_iff.mp h
          cases heq
          obtain ⟨rest, hrest, hquoted⟩ := quoted?_sound hw
          exact ⟨rest, hrest, hquoted, fun c _ hcont => by cases hcont⟩
        · obtain ⟨mark, hmark, heq⟩ := Option.map_eq_some_iff.mp h
          cases heq
          obtain ⟨-, rest, hrest, hend⟩ := mark?_sound hmark
          refine ⟨rest, hrest, (isSpelling_iff_eq_symbol (mark?_eq_some hmark).2).mpr rfl, ?_⟩
          intro c hc hcont
          rw [hend c hc] at hcont
          cases hcont

section
variable {b : UInt8} {text : Bytes}

theorem read?_wordStart (hb : isWordStart b) :
    read? (b :: text) =
      some (wordKind ((b :: text).takeWhile isWordPart), (b :: text).takeWhile isWordPart) := by
  simp only [read?, hb, if_true]

theorem read?_digit (hb : Bytes.isDigit b) :
    read? (b :: text) = some (.number, number (b :: text)) := by
  have hstart : ¬ isWordStart b := by
    rw [isDigit_iff] at hb
    rw [isWordStart_iff]
    omega
  simp only [read?, hb, hstart, Bool.false_eq_true, if_true, if_false]

theorem read?_quote : read? (Bytes.quote :: text) = (quoted? text).map (.string, ·) := rfl

theorem read?_mark {kind : Kind} (hk : kind ∈ marks) (hb : kind.symbol.head? = some b) :
    read? (b :: text) = (mark? (b :: text)).map fun kind => (kind, kind.symbol) := by
  obtain ⟨hpart, hdigit, hquote, -⟩ := mark_head_cases hk hb
  have hstart : isWordStart b = false := by
    rw [isWordPart, Bool.or_eq_false_iff] at hpart
    exact hpart.1
  simp only [read?, hstart, hdigit, hquote, Bool.false_eq_true, if_false]

end

/-- A spelling is read as it stands if the byte after it does not go on with it. -/
theorem read?_complete {kind : Kind} {w rest : Bytes} (h : IsSpelling kind w)
    (hrest : ∀ b ∈ rest.head?, continues kind b = false) :
    read? (w ++ rest) = some (kind, w) := by
  obtain ⟨b, w', rfl, hb⟩ := h.exists_head
  rw [List.cons_append]
  cases hb with
  | word hk hb =>
    obtain ⟨hword, hkind⟩ := h.word hk
    have hend : ∀ c ∈ rest.head?, ¬ isWordPart c := by
      intro c hc hpart
      have := hrest c hc
      cases kind <;> simp_all [continues, Kind.isWord]
    rw [read?_wordStart hb, ← List.cons_append,
      takeWhile_append_of_boundary hword.isWordPart hend, hkind]
  | number hb =>
    have hend : ∀ c ∈ rest.head?, ¬ Bytes.isDigit c ∧ c ≠ Bytes.dot := by
      intro c hc
      simpa [continues] using hrest c hc
    rw [read?_digit hb, ← List.cons_append, number_complete h hend]
  | string =>
    obtain ⟨body, hw, hbody⟩ := h
    rw [List.cons_append] at hw
    cases hw
    rw [List.append_assoc, List.singleton_append, read?_quote, quoted?_complete hbody]
    rfl
  | mark hk hb =>
    have hw := (isSpelling_iff_eq_symbol fun hnil => by rw [hnil] at hb; cases hb).mp h
    rw [read?_mark hk hb, ← List.cons_append, hw, mark?_complete hk hrest]
    rfl

/-! ## Looking ahead -/

/-- Two bytes decide whether a text begins with a fraction. -/
theorem fraction_eq_nil_iff {text : Bytes} :
    fraction text = [] ↔ ∀ b, Bytes.isDigit b → text.take 2 ≠ [Bytes.dot, b] := by
  unfold fraction
  split
  · next point digit rest =>
    have htake : (point :: digit :: rest).take 2 = [point, digit] := rfl
    rw [htake]
    split
    · next h =>
      rw [Bool.and_eq_true, decide_eq_true_eq] at h
      refine ⟨fun hnil => absurd hnil (List.cons_ne_nil _ _), fun hall => ?_⟩
      exact absurd (congrArg (· :: [digit]) h.1) (hall digit h.2)
    · next h =>
      refine ⟨fun _ b hb heq => h ?_, fun _ => rfl⟩
      cases heq
      rw [hb]
      rfl
  · next hshort =>
    refine ⟨fun _ b _ heq => ?_, fun _ => rfl⟩
    match text, heq with
    | point :: digit :: rest, _ => exact hshort point digit rest rfl

section
variable {w rest rest' : Bytes}

theorem head?_congr_take (htake : rest'.take 2 = rest.take 2) : rest'.head? = rest.head? := by
  have hhead := congrArg List.head? htake
  rwa [List.head?_take, List.head?_take] at hhead

theorem append_congr_take (htake : rest'.take 2 = rest.take 2) (w : Bytes) :
    (w ++ rest').take 2 = (w ++ rest).take 2 := by
  have hless := congrArg (List.take (2 - w.length)) htake
  rw [List.take_take, List.take_take, Nat.min_eq_left (Nat.sub_le ..)] at hless
  rw [List.take_append, List.take_append, hless]

/-- A number is read again if the two bytes after it stay. -/
theorem number_congr_take (hw : IsNumber w) (hrest : ∀ b ∈ rest.head?, ¬ Bytes.isDigit b)
    (h : number (w ++ rest) = w) (htake : rest'.take 2 = rest.take 2) :
    number (w ++ rest') = w := by
  have hhead := head?_congr_take htake
  rw [← hhead] at hrest
  rcases hw with hw | ⟨whole, part, rfl, hwhole, hpart⟩
  · rw [number_digits hw (hhead ▸ hrest), List.append_right_eq_self, fraction_eq_nil_iff, ← htake,
      ← fraction_eq_nil_iff] at h
    rw [number_digits hw hrest, h, List.append_nil]
  · rw [List.append_assoc, number_digits hwhole (by simp; decide), fraction_dot hpart hrest]

/-- A lexeme is read again if the two bytes after it stay. -/
theorem read?_congr_take {kind : Kind} (h : read? (w ++ rest) = some (kind, w))
    (htake : rest'.take 2 = rest.take 2) : read? (w ++ rest') = some (kind, w) := by
  obtain ⟨rest₀, heq, hspelling, hcont⟩ := read?_sound h
  cases List.append_cancel_left heq
  have hhead := head?_congr_take htake
  by_cases hend : ∀ b ∈ rest.head?, continues kind b = false
  · exact read?_complete hspelling (hhead ▸ hend)
  · -- Only a number before a point is left: what follows the point counts too.
    simp only [Classical.not_forall, Bool.not_eq_false] at hend
    obtain ⟨b, hb, hcontb⟩ := hend
    obtain rfl := hcont b hb hcontb
    obtain rfl : kind = .number := by cases kind <;> first | rfl | cases hcontb
    obtain ⟨c, w', rfl, hc⟩ := hspelling.exists_head
    have hdigit : Bytes.isDigit c := by rw [hc.isDigit_eq]; rfl
    have hdot : ∀ b ∈ rest.head?, ¬ Bytes.isDigit b := by
      intro b' hb'
      cases hb.symm.trans hb'
      decide
    rw [List.cons_append, read?_digit hdigit, Option.some.injEq, Prod.mk.injEq] at h ⊢
    exact ⟨rfl, number_congr_take hspelling hdot h.2 htake⟩

end

end Lexeme

end Arrowlet
