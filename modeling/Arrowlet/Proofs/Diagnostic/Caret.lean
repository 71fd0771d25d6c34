import Arrowlet.Diagnostic
import Arrowlet.Proofs.Compile.Outcomes
import Arrowlet.Proofs.Diagnostic.OneLine
import Arrowlet.Proofs.Program.FirstMisfit
import Arrowlet.Proofs.Token.Faults

/-!
# The caret of a diagnostic stands under the fault

`diagnostic_points_at_fault`: the diagnostic of a text that cannot be compiled is the message, the
line of the text and a caret under the place in it where the fault begins.

Positions are counted while tokens are read, and the line is looked up again afterwards. Both agree
because a position is that after some beginning of the text, which consists of encoded characters:
the line begins with the last line of that beginning, and the column counts its characters
(`Diagnostic.line?_after`, `Diagnostic.column_after`). Carriage returns that are taken off the end
of the line are none of the fault, since that does not end with one (`Diagnostic.exists_locates`).
At the end of the input they may lie before the caret, and then nothing is left after it
(`Diagnostic.exists_locates_end`).
-/

namespace Arrowlet

open Bytes

/-- What the rest of a line begins with if it is the place of an error: the character or the byte
that the lexer refuses, or the token that does not fit. At the end of the input nothing is left. -/
def CompileError.PointsAt (e : CompileError) (rest : Bytes) : Prop :=
  match e with
  | lex e =>
    match e.fault with
    | .encoding b => e.char = b.toNat ∧ [b] <+: rest
    | _ => ∃ c : Char, e.char = c.toNat ∧ String.utf8EncodeChar c <+: rest
  | parse e => if e.found.kind = .eof then rest = [] else e.found.lexeme <+: rest
  | generate _ => False

namespace Diagnostic

/-- The diagnostic of an error in `src` shows a position with the line `text` and with `pad` in
front of a caret. -/
structure Locates (src : Bytes) (e : CompileError) (pos : Position) (text pad : Bytes) : Prop where
  /-- The position is that of the error, and it is counted from one. -/
  position : e.position? = some pos ∧ 1 ≤ pos.line ∧ 1 ≤ pos.column
  /-- The text is the line of that number without the carriage returns at its end. -/
  line : ∃ n, src.lines[(pos.line - 1).toNat]? = some (text ++ List.replicate n carriageReturn)
  trimmed : text.getLast? ≠ some carriageReturn
  /-- There are three lines. -/
  lines : (e.diagnostic src).lines = [e.message, "  |> " ++ text, "  |> " ++ pad ++ "^"]
  /-- The caret stands in the column of the error, behind tabs under tabs and spaces under all
  else. -/
  width : pad.length = (pos.column - 1).toNat
  under : ∀ i < pad.length,
    pad[i]? = some (if text.units[i]? = some (.char '\t') then tab else space)
  /-- The fault stands above the caret. -/
  fault : e.PointsAt (text.afterChars pad.length)

/-! ## The caret -/

section
variable {line : Bytes} {column : Int}

theorem length_caretPad (line : Bytes) (column : Int) :
    (caretPad line column).length = (column - 1).toNat := by
  simp only [caretPad, List.length_append, List.length_map, List.length_take, List.length_replicate]
  omega

/-- There is a tab under a tab, and a space under any other character and beyond the line. -/
theorem getElem?_caretPad {i : Nat} (hi : i < (caretPad line column).length) :
    (caretPad line column)[i]? =
      some (if line.units[i]? = some (.char '\t') then tab else space) := by
  rw [length_caretPad] at hi
  simp only [caretPad]
  by_cases hunits : i < line.units.length
  · rw [List.getElem?_append_left (by simp; omega), List.getElem?_map, List.getElem?_take_of_lt hi,
      List.getElem?_eq_getElem hunits]
    simp
  · rw [List.getElem?_append_right (by simp; omega), List.getElem?_replicate,
      List.getElem?_eq_none (by omega)]
    simp
    omega

theorem isLine_caretPad (line : Bytes) (column : Int) : (caretPad line column).IsLine := by
  intro hmem
  obtain ⟨i, hi⟩ := List.mem_iff_getElem?.mp hmem
  have hlt := (List.getElem?_eq_some_iff.mp hi).1
  rw [getElem?_caretPad hlt, Option.some.injEq] at hi
  split at hi <;> exact absurd hi (by decide)

end

/-! ## The line -/

theorem line?_eq_some {src text : Bytes} {number : Int} (h : line? src number = some text) :
    (∃ n, src.lines[(number - 1).toNat]? = some (text ++ List.replicate n carriageReturn)) ∧
      text.getLast? ≠ some carriageReturn ∧ text.IsLine := by
  rw [line?] at h
  split at h
  · cases h
  · obtain ⟨line, hline, rfl⟩ := Option.map_eq_some_iff.mp h
    obtain ⟨off, heq, hoff, hlast⟩ := exists_eq_trimRight_append (· = carriageReturn) line
    have hoff : off = List.replicate off.length carriageReturn :=
      List.eq_replicate_of_mem fun b hb => by simpa using hoff b hb
    refine ⟨⟨off.length, ?_⟩, fun hcr => hlast _ hcr (decide_eq_true rfl), ?_⟩
    · rw [hline, ← hoff, ← heq]
    · exact (isLine_of_mem_lines (List.mem_of_getElem? hline)).of_subset (trimRight_subset _ _)

/-- The line of the position after a beginning of a text. -/
theorem line?_after (before rest : Bytes) :
    line? (before ++ rest) (Position.start.after before).line =
      some (trimRight (· = carriageReturn) (before.lastLine ++ rest.takeWhile (· ≠ lineFeed))) := by
  rw [Position.after_start, line?, if_neg (by simp only; omega)]
  have hnumber : (1 + (before.count lineFeed : Int) - 1).toNat = before.count lineFeed := by omega
  simp only [hnumber, getElem?_lines_append, Option.map_some]

/-- The column of the position after encoded characters counts those of the last line. -/
theorem column_after {before : Bytes} (h : before.IsEncoded) :
    ((Position.start.after before).column - 1).toNat = before.lastLine.charCount := by
  rw [Position.after_start, h.lastLine.countP_eq_charCount]
  simp only
  omega

/-! ## Finding the fault -/

section
variable {src text before w rest : Bytes} {e : CompileError}

/-- What a diagnostic shows if the line of the error is found. -/
theorem locates_of_line? {pos : Position} (hpos : e.position? = some pos) (hline : 1 ≤ pos.line)
    (hcolumn : 1 ≤ pos.column) (hmessage : e.message.IsLine)
    (htext : line? src pos.line = some text)
    (hfault : e.PointsAt (text.afterChars (pos.column - 1).toNat)) :
    Locates src e pos text (caretPad text pos.column) := by
  obtain ⟨hshown, htrimmed, hsingle⟩ := line?_eq_some htext
  have hpad := length_caretPad text pos.column
  refine ⟨⟨hpos, hline, hcolumn⟩, hshown, htrimmed, ?_, hpad, fun i hi => getElem?_caretPad hi, ?_⟩
  · have hdiagnostic : e.diagnostic src = e.message ++ lineFeed :: ("  |> " ++ text ++
        lineFeed :: ("  |> " ++ caretPad text pos.column ++ "^")) := by
      have hbreak : ("\n  |> " : Bytes) = lineFeed :: ("  |> " : Bytes) := by decide
      rw [CompileError.diagnostic, hpos, render]
      simp only [htext, hbreak, List.append_assoc, List.cons_append]
    have hmark : IsLine ("  |> " : Bytes) := by decide
    rw [hdiagnostic, lines_append_lineFeed hmessage, lines_append_lineFeed (hmark.append hsingle),
      lines_eq_singleton ((hmark.append (isLine_caretPad _ _)).append (by decide))]
  · rw [hpad]
    exact hfault

theorem one_le_after (before : Bytes) :
    1 ≤ (Position.start.after before).line ∧ 1 ≤ (Position.start.after before).column := by
  rw [Position.after_start]
  exact ⟨by simp only; omega, by simp only; omega⟩

/-- A fault that begins with `w` is found if `w` lies in one line and is not trimmed off. -/
theorem exists_locates (hsrc : src = before ++ (w ++ rest)) (hbefore : before.IsEncoded)
    (hpos : e.position? = some (Position.start.after before)) (hmessage : e.message.IsLine)
    (hline : w.IsLine) (hlast : ∃ b ∈ w.getLast?, b ≠ carriageReturn)
    (hfault : ∀ more, e.PointsAt (w ++ more)) : ∃ pos text pad, Locates src e pos text pad := by
  obtain ⟨hone, hone'⟩ := one_le_after before
  have htext := line?_after before (w ++ rest)
  have hkept : (w ++ rest).takeWhile (· ≠ lineFeed) = w ++ rest.takeWhile (· ≠ lineFeed) := by
    refine List.takeWhile_append_of_pos fun b hb => ?_
    rw [decide_eq_true_eq]
    rintro rfl
    exact hline hb
  rw [← hsrc, hkept, trimRight_append_of_getLast (by simpa using hlast)] at htext
  refine ⟨_, _, _, locates_of_line? hpos hone hone' hmessage htext ?_⟩
  rw [column_after hbefore, hbefore.lastLine.afterChars_append]
  exact hfault _

/-- A fault at the end of the text is found, and nothing of the line is left there. -/
theorem exists_locates_end (hsrc : src.IsEncoded)
    (hpos : e.position? = some (Position.start.after src)) (hmessage : e.message.IsLine)
    (hfault : e.PointsAt []) : ∃ pos text pad, Locates src e pos text pad := by
  obtain ⟨hone, hone'⟩ := one_le_after src
  have htext := line?_after src []
  rw [List.append_nil, List.takeWhile_nil, List.append_nil] at htext
  refine ⟨_, _, _, locates_of_line? hpos hone hone' hmessage htext ?_⟩
  rw [column_after hsrc, hsrc.lastLine.afterChars_trimRight fun b hb => ?_]
  · exact hfault
  · rw [decide_eq_true_eq] at hb
    rw [hb]
    decide

end

end Diagnostic

open Diagnostic

/-! ## Faults of a text -/

/-- The diagnostic of a text without tokens shows where the lexer stops. -/
theorem exists_locates_lex {src : Bytes} {e : LexError} (h : lex src = .error e) :
    ∃ pos text pad, Locates src (.lex e) pos text pad := by
  rcases lex_error_cases h with ⟨valid, b, rest, hsrc, hvalid, hstray, rfl⟩ |
    ⟨d, rest, -, hsrc, hd, hrest, hstuck, rfl⟩
  · have hb := le_of_firstChar?_eq_none hstray
    have hne : ∀ c : UInt8, c.toNat < 128 → b ≠ c := by
      rintro c hc rfl
      omega
    refine exists_locates (w := [b]) hsrc hvalid rfl (LexError.isLine_message (by simp))
      (fun hmem => ?_) ⟨b, rfl, hne _ (by decide)⟩ fun more => ⟨rfl, List.prefix_append ..⟩
    exact hne lineFeed (by decide) (List.mem_singleton.mp hmem).symm
  · obtain ⟨c, more, heq, hchar, hblank⟩ := hstuck.exists_char hrest
    have hfault := (⟨rest, Position.start.after d.text⟩ : Lexer).fault_cases
    obtain ⟨b, others, hb, -⟩ := exists_encode_eq_first c
    have hne : String.utf8EncodeChar c ≠ [] := by simp [hb]
    refine exists_locates (w := String.utf8EncodeChar c) (by rw [hsrc, heq]) hd rfl
      (LexError.isLine_message fun words hwords => ?_) (fun hmem => hblank _ hmem (by decide))
      ⟨_, List.getLast?_eq_some_getLast hne, fun hcr => ?_⟩ fun more => ?_
    · rw [hwords] at hfault
      rcases hfault with hfault | hfault <;> cases hfault
    · refine hblank _ (List.getLast_mem hne) ?_
      rw [hcr]
      decide
    · rcases hfault with hfault | hfault
      all_goals
        simp only [CompileError.PointsAt, hfault]
        exact ⟨c, hchar _, List.prefix_append ..⟩

/-- Where the tokens of a text are no program, one of them does not fit. -/
theorem found_mem_of_parse_error {ts : List Token} {e : ParseError} (h : parse ts = .error e)
    (hend : ∃ t ∈ ts, t.kind = .eof) : e.found ∈ ts := by
  rw [parse] at h
  split at h
  · cases h
  next m hm =>
  cases h
  obtain ⟨us, hts, hne, -, hbegins, -⟩ := exists_misfit hm
  cases hrest : m.rest with
  | nil =>
    -- All tokens would begin a program, and the end of the input is among them.
    obtain ⟨kind, hkind⟩ := List.exists_mem_of_ne_nil _ hne
    obtain ⟨t, ht, heof⟩ := hend
    rw [hts, hrest, List.append_nil] at ht
    exact absurd heof ((hbegins (Grammar.sample kind) hkind).of_append.completable.2 t ht)
  | cons t rest => simp [hts, hrest]

/-- The diagnostic of tokens that are no program shows the one that does not fit. -/
theorem exists_locates_parse {src : Bytes} {ts : List Token} {e : ParseError}
    (hlex : lex src = .ok ts) (h : parse ts = .error e) :
    ∃ pos text pad, Locates src (.parse e) pos text pad := by
  obtain ⟨hsrc, ⟨pieces, last⟩, hd, rfl, rfl⟩ := lex_eq_ok_iff.mp hlex
  have hend : ∃ t ∈ Layout.tokensFrom .start pieces last, t.kind = .eof := by
    have hmem : (Kind.eof, []) ∈ (Layout.tokensFrom .start pieces last).map Token.spelling := by
      simp [Layout.map_spelling_tokensFrom]
    obtain ⟨t, ht, heof⟩ := List.mem_map.mp hmem
    exact ⟨t, ht, congrArg Prod.fst heof⟩
  rcases Layout.mem_tokensFrom (found_mem_of_parse_error h hend) with
    hfound | ⟨before, p, behind, rfl, hfound⟩
  · have hpos : e.pos = Position.start.after (Layout.text ⟨pieces, last⟩) := by
      rw [ParseError.pos, hfound]
    refine exists_locates_end hsrc (congrArg some hpos) e.isLine_message ?_
    simp only [CompileError.PointsAt, hfound, if_true]
  · have hp := hd.pieces p (by simp)
    have hbefore : Layout.WellFormed ⟨before, p.blank⟩ :=
      ⟨fun q hq => hd.pieces q (by simp [hq]), (List.isChain_append.mp hd.apart).1, hp.blank⟩
    have hcut : Layout.text ⟨before ++ p :: behind, last⟩ =
        Layout.text ⟨before, p.blank⟩ ++ (p.lexeme ++ Layout.text ⟨behind, last⟩) := by
      simp [Layout.text, Piece.text]
    obtain ⟨b, hb, hvisible⟩ := hp.lexeme.exists_last
    refine exists_locates (w := p.lexeme) hcut (hbefore.isEncoded_of_append (hcut ▸ hsrc)).1 ?_
      e.isLine_message hp.lexeme.isLine ⟨b, hb, ?_⟩ fun more => ?_
    · refine congrArg some ?_
      rw [ParseError.pos, hfound, Layout.text, Position.after_append]
      rfl
    · rintro rfl
      exact absurd hvisible.1 (by decide)
    · simp only [CompileError.PointsAt, hfound, Piece.token, hp.kind_ne_eof, if_false]
      exact List.prefix_append ..

/-- **The diagnostic of a text that cannot be compiled points at the fault.** The error has a
position, and the diagnostic is three lines: the message, the line of the text with that number, and
a caret in that column. What stands above the caret is the character or the byte that is refused or
the token that does not fit; at the end of the input it is nothing. -/
theorem diagnostic_points_at_fault {src : Bytes} {e : CompileError} (h : compile src = .error e) :
    ∃ pos text pad, Diagnostic.Locates src e pos text pad := by
  rcases compile_cases src with ⟨lines, hok⟩ | ⟨e', hlex, herror⟩ | ⟨ts, e', hlex, hparse, herror⟩
  · rw [hok] at h
    cases h
  · rw [herror] at h
    cases h
    exact exists_locates_lex hlex
  · rw [herror] at h
    cases h
    exact exists_locates_parse hlex hparse

/-- A program with a tab and a character of two bytes before a parenthesis that does not fit. -/
def unfinishedOutput : Bytes := "x;\r\n\tWRITE(\"é\", );\r\n"

/-- The parenthesis is in the second line, and the character of two bytes is one column. -/
theorem diagnostic_points_at_fault_unfinished :
    ∃ e, compile unfinishedOutput = .error e ∧ e.position? = some ⟨2, 13⟩ ∧
      ∃ text pad, Diagnostic.Locates unfinishedOutput e ⟨2, 13⟩ text pad := by
  have herror : compile unfinishedOutput =
      .error (.parse ⟨[.number, .identifier, .lparen], ⟨.rparen, ")", ⟨2, 13⟩⟩⟩) := by
    decide +kernel
  obtain ⟨pos, text, pad, hlocates⟩ := diagnostic_points_at_fault herror
  cases hlocates.position.1
  exact ⟨_, herror, rfl, text, pad, hlocates⟩

end Arrowlet
