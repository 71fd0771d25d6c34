import Arrowlet.Proofs.Token.Spelling

/-!
# The tokens of a C text

`CToken.tokens` cuts a text as C does: blanks and comments are skipped, and what begins elsewhere is
the longest identifier, preprocessing number or punctuator that stands there, or else a single byte.
What stands at the beginning is read as a token if nothing longer that begins there is one
(`CToken.tokens_append`). A token that is longer than a byte holds no space and no parenthesis
(`CToken.isToken_eq_false`), so these end the token before them. The lexemes of an expression are
tokens of C (`CToken.isToken_of_isSpelling`).
-/

namespace Arrowlet

open Lexeme

namespace CToken

/-- The blanks of C. -/
def isSpace (b : UInt8) : Bool := b ∈ (" \t\n\x0b\x0c" : Bytes)

/-- A letter or `_`. -/
def isNonDigit (b : UInt8) : Bool := Bytes.isLetter b || b = 0x5f

/-- A letter or `_`, then letters, digits and `_`. -/
def isIdentifier : Bytes → Bool
  | [] => false
  | b :: rest => isNonDigit b && rest.all fun c => isNonDigit c || Bytes.isDigit c

/-- What a preprocessing number may go on with: letters, digits, `_` and points, and a sign after an
exponent letter. -/
def continuesNumber : Bytes → Bool
  | [] => true
  | [b] => isNonDigit b || Bytes.isDigit b || b = Bytes.dot
  | b :: c :: rest =>
    if b ∈ ("eEpP" : Bytes) && c ∈ ("+-" : Bytes) then continuesNumber rest
    else (isNonDigit b || Bytes.isDigit b || b = Bytes.dot) && continuesNumber (c :: rest)

/-- A preprocessing number: a digit, or a point before a digit, and what it goes on with. -/
def isNumber : Bytes → Bool
  | [] => false
  | b :: rest =>
    (Bytes.isDigit b || b = Bytes.dot && rest.head?.any Bytes.isDigit) && continuesNumber rest

/-- The punctuators of C. -/
def punctuators : List Bytes :=
  (["[", "]", "(", ")", "\x7b", "\x7d", ".", "->", "++", "--", "&", "*", "+", "-", "~", "!", "/",
    "%", "<<", ">>", "<", ">", "<=", ">=", "==", "!=", "^", "|", "&&", "||", "?", ":", "::", ";",
    "...", "=", "*=", "/=", "%=", "+=", "-=", "<<=", ">>=", "&=", "^=", "|=", ",", "#", "##", "<:",
    ":>", "<%", "%>", "%:", "%:%:"] : List String).map Bytes.ofString

/-- An identifier, a preprocessing number or a punctuator. -/
def isToken (w : Bytes) : Bool := isIdentifier w || isNumber w || punctuators.any (· = w)

/-- The longest beginning of a text that satisfies `p`. -/
def longest? (p : Bytes → Bool) : Bytes → Option Bytes
  | [] => if p [] then some [] else none
  | b :: rest =>
    match longest? (fun w => p (b :: w)) rest with
    | some w => some (b :: w)
    | none => if p [] then some [] else none

/-- What follows the first `*/`. -/
def afterBlock : Bytes → Bytes
  | [] => []
  | b :: rest => if b = 0x2a && rest.head? = some 0x2f then rest.tail else afterBlock rest

/-- What follows the comment that a text begins with. -/
def afterComment? : Bytes → Option Bytes
  | 0x2f :: 0x2f :: rest => some (rest.dropWhile (· ≠ Bytes.lineFeed))
  | 0x2f :: 0x2a :: rest => some (afterBlock rest)
  | _ => none

theorem length_afterBlock_le (text : Bytes) : (afterBlock text).length ≤ text.length := by
  induction text with
  | nil => exact Nat.le_refl 0
  | cons b rest ih =>
    rw [afterBlock, List.length_cons]
    split
    · rw [List.length_tail]
      omega
    · omega

/-- A comment is not empty. -/
theorem length_lt_of_afterComment? {text rest : Bytes} (h : afterComment? text = some rest) :
    rest.length < text.length := by
  unfold afterComment? at h
  split at h
  · next line =>
    cases h
    have := (List.dropWhile_sublist (l := line) fun b => decide (b ≠ Bytes.lineFeed)).length_le
    simp only [List.length_cons]
    omega
  · next block =>
    cases h
    have := length_afterBlock_le block
    simp only [List.length_cons]
    omega
  · cases h

/-- The tokens of a C text. A byte that begins none stands for itself. -/
def tokens (text : Bytes) : List Bytes :=
  match text with
  | [] => []
  | b :: rest =>
    if isSpace b then tokens rest
    else
      match _h : afterComment? (b :: rest) with
      | some after => tokens after
      | none =>
        let more := (longest? (fun w => isToken (b :: w)) rest).getD []
        (b :: more) :: tokens (rest.drop more.length)
termination_by text.length
decreasing_by
  · exact Nat.lt_succ_self _
  · exact length_lt_of_afterComment? _h
  · simp only [List.length_drop, List.length_cons]
    omega

/-! ## Longest match -/

section
variable {p : Bytes → Bool} {b : UInt8} {w text rest : Bytes}

theorem longest?_eq_none (h : ∀ x, x <+: text → p x = false) : longest? p text = none := by
  induction text generalizing p with
  | nil => simp [longest?, h [] (List.prefix_refl _)]
  | cons b text ih =>
    have hmore : longest? (fun w => p (b :: w)) text = none :=
      ih fun x hx => h (b :: x) (List.cons_prefix_cons.mpr ⟨rfl, hx⟩)
    simp [longest?, hmore, h [] List.nil_prefix]

/-- A beginning that satisfies `p` is the longest if what goes on with it does not. -/
theorem longest?_append (hw : p w) (h : ∀ x ≠ [], x <+: rest → p (w ++ x) = false) :
    longest? p (w ++ rest) = some w := by
  induction w generalizing p with
  | nil =>
    cases rest with
    | nil => simp [longest?, hw]
    | cons b rest =>
      have hmore : longest? (fun w => p (b :: w)) rest = none :=
        longest?_eq_none fun x hx => h (b :: x) (by simp) (List.cons_prefix_cons.mpr ⟨rfl, hx⟩)
      simp [longest?, hmore, hw]
  | cons b w ih => rw [List.cons_append, longest?, ih hw h]

@[simp] theorem tokens_nil : tokens [] = [] := by
  rw [tokens]

theorem tokens_space (hb : isSpace b) : tokens (b :: rest) = tokens rest := by
  rw [tokens, if_pos hb]

/-- A token is read as it stands if it is no blank, begins no comment, and what goes on with it is
no token. -/
theorem tokens_append (hw : isToken w) (hspace : ∀ b ∈ w.head?, isSpace b = false)
    (hcomment : afterComment? (w ++ rest) = none)
    (h : ∀ x ≠ [], x <+: rest → isToken (w ++ x) = false) :
    tokens (w ++ rest) = w :: tokens rest := by
  cases w with
  | nil => cases hw
  | cons b w =>
    have hlongest : longest? (fun w => isToken (b :: w)) (w ++ rest) = some w :=
      longest?_append hw h
    rw [List.cons_append] at hcomment ⊢
    rw [tokens, if_neg (by simp [hspace b rfl])]
    split
    · next after hafter => cases hcomment.symm.trans hafter
    · simp [hlongest]

end

/-! ## Spaces and parentheses -/

/-- The bytes that are in no longer token. -/
def isParting (b : UInt8) : Bool := b ∈ (" ()" : Bytes)

section
variable {b : UInt8} {w : Bytes}

theorem isParting_cases (h : isParting b) :
    isNonDigit b = false ∧ Bytes.isDigit b = false ∧ b ≠ Bytes.dot ∧ b ∉ ("eEpP" : Bytes) ∧
      b ∉ ("+-" : Bytes) ∧ b ≠ 0x2f ∧ b ≠ 0x2a := by
  have hb : b ∈ [(0x20 : UInt8), 0x28, 0x29] := of_decide_eq_true h
  simp only [List.mem_cons, List.not_mem_nil, or_false] at hb
  rcases hb with rfl | rfl | rfl <;> decide

theorem isIdentifier_eq_false (hb : isParting b) (hmem : b ∈ w) : isIdentifier w = false := by
  obtain ⟨hnonDigit, hdigit, -⟩ := isParting_cases hb
  cases w with
  | nil => rfl
  | cons c w =>
    rcases List.mem_cons.mp hmem with rfl | hmem
    · simp [isIdentifier, hnonDigit]
    · have hall : (w.all fun c => isNonDigit c || Bytes.isDigit c) = false :=
        List.all_eq_false.mpr ⟨b, hmem, by simp [hnonDigit, hdigit]⟩
      simp [isIdentifier, hall]

theorem continuesNumber_eq_false (hb : isParting b) (hmem : b ∈ w) :
    continuesNumber w = false := by
  obtain ⟨hnonDigit, hdigit, hdot, hexponent, hsign, -⟩ := isParting_cases hb
  fun_induction continuesNumber w with
  | case1 => cases hmem
  | case2 c =>
    cases List.mem_singleton.mp hmem
    simp [hnonDigit, hdigit, hdot]
  | case3 c d rest h ih =>
    simp only [Bool.and_eq_true, decide_eq_true_eq] at h
    simp only [List.mem_cons] at hmem
    rcases hmem with rfl | rfl | hmem
    · exact absurd h.1 hexponent
    · exact absurd h.2 hsign
    · exact ih hmem
  | case4 c d rest h ih =>
    rcases List.mem_cons.mp hmem with rfl | hmem
    · simp [hnonDigit, hdigit, hdot]
    · rw [ih hmem, Bool.and_false]

theorem isNumber_eq_false (hb : isParting b) (hmem : b ∈ w) : isNumber w = false := by
  obtain ⟨-, hdigit, hdot, -⟩ := isParting_cases hb
  cases w with
  | nil => rfl
  | cons c w =>
    rcases List.mem_cons.mp hmem with rfl | hmem
    · simp [isNumber, hdigit, hdot]
    · simp [isNumber, continuesNumber_eq_false hb hmem]

/-- A token that is longer than a byte holds no space and no parenthesis. -/
theorem isToken_eq_false (hw : 2 ≤ w.length) (hb : isParting b) (hmem : b ∈ w) :
    isToken w = false := by
  have hpunctuator : punctuators.any (· = w) = false := by
    have hall : punctuators.all fun w => w.length < 2 || w.all fun b => !isParting b := by decide
    refine List.any_eq_false.mpr fun w' hw' heq => ?_
    obtain rfl : w' = w := of_decide_eq_true heq
    have := List.all_eq_true.mp hall w' hw'
    simp only [Bool.or_eq_true, decide_eq_true_eq, List.all_eq_true, Bool.not_eq_true'] at this
    rcases this with hlt | hnone
    · omega
    · rw [hnone b hmem] at hb
      cases hb
  simp [isToken, isIdentifier_eq_false hb hmem, isNumber_eq_false hb hmem, hpunctuator]

end

/-! ## Comments -/

theorem afterComment?_of_ne {b : UInt8} (hb : b ≠ 0x2f) (rest : Bytes) :
    afterComment? (b :: rest) = none := by
  unfold afterComment?
  split
  · next h => exact absurd (List.head_eq_of_cons_eq h) hb
  · next h => exact absurd (List.head_eq_of_cons_eq h) hb
  · rfl

theorem afterComment?_slash {rest : Bytes} (h : ∀ b ∈ rest.head?, isParting b) :
    afterComment? (0x2f :: rest) = none := by
  unfold afterComment?
  split
  · next heq =>
    cases heq
    exact absurd (h _ rfl) (by decide)
  · next heq =>
    cases heq
    exact absurd (h _ rfl) (by decide)
  · rfl

/-! ## Lexemes of an expression -/

theorem isIdentifier_of_isWord {w : Bytes} (h : IsWord w) : isIdentifier w := by
  cases w with
  | nil => exact h.elim
  | cons b w => exact Bool.and_eq_true_iff.mpr ⟨h.1, List.all_eq_true.mpr h.2⟩

theorem continuesNumber_of_digits {w : Bytes} (h : ∀ b ∈ w, Bytes.isDigit b ∨ b = Bytes.dot) :
    continuesNumber w := by
  have hpart : ∀ b, Bytes.isDigit b ∨ b = Bytes.dot →
      isNonDigit b || Bytes.isDigit b || b = Bytes.dot := by
    intro b hb
    rcases hb with hb | hb <;> simp [hb]
  fun_induction continuesNumber w with
  | case1 => rfl
  | case2 b => exact hpart b (h b (by simp))
  | case3 b c rest _ ih => exact ih fun d hd => h d (by simp [hd])
  | case4 b c rest _ ih =>
    rw [Bool.and_eq_true]
    exact ⟨hpart b (h b (by simp)), ih fun d hd => h d (List.mem_cons_of_mem _ hd)⟩

theorem isNumber_of_isNumber {w : Bytes} (h : IsNumber w) : isNumber w := by
  have hspelling : IsSpelling .number w := h
  obtain ⟨b, rest, rfl, hb⟩ := hspelling.exists_head
  have hdigit : Bytes.isDigit b := hb.isDigit_eq
  have hrest : continuesNumber rest :=
    continuesNumber_of_digits fun c hc => h.isDigit_or_eq_dot c (List.mem_cons_of_mem _ hc)
  simp [isNumber, hdigit, hrest]

/-- The kinds of the tokens of an expression. -/
def exprKinds : List Kind := [.identifier, .number, .lparen, .rparen, .plus, .minus, .star, .slash]

theorem isSpace_iff {b : UInt8} : isSpace b ↔ b.toNat = 32 ∨ 9 ≤ b.toNat ∧ b.toNat ≤ 12 := by
  have hspaces : (" \t\n\x0b\x0c" : Bytes) = [0x20, 0x09, 0x0a, 0x0b, 0x0c] := rfl
  simp only [isSpace, hspaces, decide_eq_true_eq, List.mem_cons, List.not_mem_nil, or_false,
    ← UInt8.toNat_inj, UInt8.reduceToNat]
  omega

section
variable {kind : Kind} {w : Bytes}

/-- The lexemes of an expression are tokens of C. -/
theorem isToken_of_isSpelling (hkind : kind ∈ exprKinds) (h : IsSpelling kind w) : isToken w := by
  simp only [exprKinds, List.mem_cons, List.not_mem_nil, or_false] at hkind
  rcases hkind with rfl | rfl | hmark
  · simp [isToken, isIdentifier_of_isWord h.1]
  · simp [isToken, isNumber_of_isNumber h]
  · rcases hmark with rfl | rfl | rfl | rfl | rfl | rfl <;> (cases h; decide)

/-- The lexemes of an expression begin with no blank, and only the slash begins with a slash. -/
theorem exists_head_of_isSpelling (hkind : kind ∈ exprKinds) (h : IsSpelling kind w) :
    ∃ b rest, w = b :: rest ∧ isSpace b = false ∧ (b = 0x2f → kind = .slash) := by
  have hword : ∀ {b : UInt8}, isWordPart b → isSpace b = false ∧ b ≠ 0x2f := by
    intro b hb
    rw [isWordPart_iff, isWordStart_iff, isDigit_iff] at hb
    simp only [Bool.eq_false_iff, ne_eq, isSpace_iff, ← UInt8.toNat_inj, UInt8.reduceToNat]
    omega
  obtain ⟨b, rest, rfl, hb⟩ := h.exists_head
  refine ⟨b, rest, rfl, ?_⟩
  simp only [exprKinds, List.mem_cons, List.not_mem_nil, or_false] at hkind
  rcases hkind with rfl | rfl | hmark
  · obtain ⟨hspace, hslash⟩ := hword hb.isWordPart_eq
    exact ⟨hspace, fun heq => absurd heq hslash⟩
  · obtain ⟨hspace, hslash⟩ := hword hb.isWordPart_eq
    exact ⟨hspace, fun heq => absurd heq hslash⟩
  · rcases hmark with rfl | rfl | rfl | rfl | rfl | rfl <;> (cases h; decide)

end

end CToken

end Arrowlet
