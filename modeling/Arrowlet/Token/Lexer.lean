import Arrowlet.Token.Basic
import Arrowlet.Token.LexError
import Arrowlet.Text.Utf8

/-!
# Reading tokens from a text

`lex` reads a whole text as tokens, the last of which is the end of the input. A text with a byte
that belongs to no encoded character is refused before anything else is read (`encodingError?`).

Reading goes from left to right with a `Lexer`, the rest of the text and its position. One step,
`Lexer.next`, skips blanks and reads the longest lexeme that begins there:

* words: a letter or `_`, then letters, digits and `_`; three of them are keywords;
* numbers: digits, and a fraction if a digit follows the point;
* quoted texts: up to the next quote of the same line, taken as they are;
* marks: `(&` `<-` `(` `)` `,` `;` `+` `-` `*` `/`.

A step that reads a token leaves a shorter text (`Lexer.next_length_lt`), so reading ends.
-/

namespace Arrowlet

/-! ## Lexemes -/

namespace Lexeme

/-- The bytes that stand between tokens: space, tab, carriage return and line feed. -/
def isBlank (b : UInt8) : Bool :=
  b = Bytes.space || b = Bytes.tab || b = Bytes.carriageReturn || b = Bytes.lineFeed

/-- A byte that a word begins with. -/
def isWordStart (b : UInt8) : Bool := Bytes.isLetter b || b = 0x5f

/-- A byte that a word goes on with. -/
def isWordPart (b : UInt8) : Bool := isWordStart b || Bytes.isDigit b

/-- A byte that may stand inside a quoted text. -/
def isQuotable (b : UInt8) : Bool := b ≠ Bytes.quote && b ≠ Bytes.lineFeed

/-- The kind of a word: a keyword if it is spelled like one, an identifier otherwise. -/
def wordKind (word : Bytes) : Kind :=
  ([.define, .write, .read].find? fun kind => kind.symbol = word).getD .identifier

/-- The fraction that the text begins with: a point and at least one digit. -/
def fraction : Bytes → Bytes
  | point :: digit :: rest =>
    if point = Bytes.dot && Bytes.isDigit digit then
      point :: digit :: rest.takeWhile Bytes.isDigit
    else []
  | _ => []

/-- The number that the text begins with. -/
def number (text : Bytes) : Bytes :=
  text.takeWhile Bytes.isDigit ++ fraction (text.dropWhile Bytes.isDigit)

/-- The quoted text that goes on after an opening quote, if a quote closes it on its line. -/
def quoted? (body : Bytes) : Option Bytes :=
  if (body.dropWhile isQuotable).head? = some Bytes.quote then
    some (Bytes.quote :: body.takeWhile isQuotable ++ [Bytes.quote])
  else none

/-- The marks, longer ones before those that begin them. -/
def marks : List Kind :=
  [.scanAddr, .arrow, .lparen, .rparen, .comma, .semicolon, .plus, .minus, .star, .slash]

/-- The mark that the text begins with. -/
def mark? (text : Bytes) : Option Kind := marks.find? fun kind => kind.symbol.isPrefixOf text

/-- The kind and the text of the longest lexeme at the beginning of a text. -/
def read? : Bytes → Option (Kind × Bytes)
  | [] => none
  | b :: rest =>
    if isWordStart b then
      let word := (b :: rest).takeWhile isWordPart
      some (wordKind word, word)
    else if Bytes.isDigit b then some (.number, number (b :: rest))
    else if b = Bytes.quote then (quoted? rest).map (.string, ·)
    else (mark? (b :: rest)).map fun kind => (kind, kind.symbol)

theorem wordKind_ne_eof (word : Bytes) : wordKind word ≠ .eof := by
  unfold wordKind
  cases h : [Kind.define, .write, .read].find? fun kind => kind.symbol = word with
  | none => simp
  | some kind =>
    have := List.mem_of_find?_eq_some h
    rintro rfl
    simp at this

/-- A mark is never the end of the input, and its symbol is not empty. -/
theorem mark?_eq_some {text : Bytes} {kind : Kind} (h : mark? text = some kind) :
    kind ≠ .eof ∧ kind.symbol ≠ [] := by
  have hm := List.mem_of_find?_eq_some h
  revert hm
  cases kind <;> simp [marks] <;> decide

/-- A lexeme is not empty, and its kind is never the end of the input. -/
theorem read?_eq_some {text : Bytes} {kind : Kind} {lexeme : Bytes}
    (h : read? text = some (kind, lexeme)) : kind ≠ .eof ∧ lexeme ≠ [] := by
  cases text with
  | nil => simp [read?] at h
  | cons b rest =>
    simp only [read?] at h
    split at h
    · next hb =>
      simp only [Option.some.injEq, Prod.mk.injEq] at h
      obtain ⟨rfl, rfl⟩ := h
      exact ⟨wordKind_ne_eof _, by simp [isWordPart, hb]⟩
    · split at h
      · next hb =>
        simp only [Option.some.injEq, Prod.mk.injEq] at h
        obtain ⟨rfl, rfl⟩ := h
        exact ⟨by simp, by simp [number, hb]⟩
      · split at h
        · simp only [quoted?, Option.map_eq_some_iff, Prod.mk.injEq] at h
          obtain ⟨_, hq, rfl, rfl⟩ := h
          split at hq <;> simp_all
          rw [← hq]
          simp
        · simp only [Option.map_eq_some_iff, Prod.mk.injEq] at h
          obtain ⟨_, hm, rfl, rfl⟩ := h
          exact mark?_eq_some hm

end Lexeme

/-! ## Steps -/

/-- What is left of a text while its tokens are read, and where that begins. -/
structure Lexer where
  /-- The text that is still to be read. -/
  rest : Bytes
  /-- The position of its first byte. -/
  pos : Position
  deriving DecidableEq, Repr

namespace Lexer

/-- Before the first byte of a text. -/
def ofText (src : Bytes) : Lexer := ⟨src, .start⟩

/-- After the first `n` bytes of the rest. -/
def skip (l : Lexer) (n : Nat) : Lexer := ⟨l.rest.drop n, l.pos.after (l.rest.take n)⟩

/-- After the blanks that the rest begins with. -/
def skipBlanks (l : Lexer) : Lexer := l.skip (l.rest.takeWhile Lexeme.isBlank).length

/-- The fault at a place where no lexeme begins. -/
def fault (l : Lexer) : LexError :=
  { char := ((l.rest.firstChar?).getD (Char.ofNat 0xfffd)).toNat
    pos := l.pos
    fault := if l.rest.head? = some Bytes.quote then .unterminated else .unexpected }

/-- Skips blanks and reads one token; at the end of the text, the end of the input. -/
def next (l : Lexer) : Except LexError (Token × Lexer) :=
  let l := l.skipBlanks
  if l.rest = [] then .ok (⟨.eof, [], l.pos⟩, l)
  else
    match Lexeme.read? l.rest with
    | some (kind, lexeme) => .ok (⟨kind, lexeme, l.pos⟩, l.skip lexeme.length)
    | none => .error l.fault

/-- A step that reads a token other than the end of the input leaves a shorter text. -/
theorem next_length_lt {l l' : Lexer} {t : Token} (h : l.next = .ok (t, l'))
    (ht : t.kind ≠ .eof) : l'.rest.length < l.rest.length := by
  simp only [next] at h
  split at h
  · simp only [Except.ok.injEq, Prod.mk.injEq] at h
    exact absurd (by rw [← h.1]) ht
  · next hne =>
    split at h
    · next kind lexeme hread =>
      simp only [Except.ok.injEq, Prod.mk.injEq] at h
      have hlex := List.length_pos_iff.mpr (Lexeme.read?_eq_some hread).2
      have hrest := List.length_pos_iff.mpr hne
      rw [← h.2]
      simp only [skip, skipBlanks, List.length_drop] at hrest ⊢
      omega
    · cases h

/-- The tokens of the rest of a text, the end of the input last. -/
def tokens (l : Lexer) : Except LexError (List Token) :=
  match _hnext : l.next with
  | .error e => .error e
  | .ok (t, l') =>
    if _hkind : t.kind = .eof then .ok [t]
    else
      match tokens l' with
      | .error e => .error e
      | .ok ts => .ok (t :: ts)
termination_by l.rest.length
decreasing_by exact next_length_lt _hnext _hkind

end Lexer

/-! ## Texts -/

/-- The error for the first byte of a text that belongs to no encoded character. The text begins at
the given line and column, and these are counted on by characters. -/
def encodingError? (line column : Int) : Bytes → Option LexError
  | [] => none
  | b :: rest =>
    match Bytes.firstChar? (b :: rest) with
    | none => some ⟨b.toNat, ⟨line, column⟩, .encoding b⟩
    | some c =>
      if c = '\n' then encodingError? (line + 1) 1 (rest.drop (c.utf8Size - 1))
      else encodingError? line (column + 1) (rest.drop (c.utf8Size - 1))
termination_by text => text.length
decreasing_by all_goals simp only [List.length_drop, List.length_cons]; omega

/-- The tokens of a text, the end of the input last. A byte that belongs to no encoded character is
the first fault, wherever it stands. -/
def lex (src : Bytes) : Except LexError (List Token) :=
  match encodingError? 1 1 src with
  | some e => .error e
  | none => (Lexer.ofText src).tokens

end Arrowlet
