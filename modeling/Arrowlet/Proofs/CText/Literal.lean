import Arrowlet.Proofs.CText.Lines
import Mathlib.Algebra.Ring.Parity

/-!
# Formats as string literals of C

A format is copied into a C text as it stands. The source ends a quoted text at the next quote; C
does not if a backslash has taken that quote. `CLiteral.read?` reads a string literal as C does.

Whether a byte is taken depends on the backslashes right before it: it is if their number is odd
(`CLiteral.takes_iff_odd`). A format holds no quote but its first and last byte, so C ends the
literal with the format if an even number of backslashes stands before its last quote. If the number
is odd, C goes on over the rest of the line, where there is no quote, and the literal is not ended
(`format_closes_unless_escaped`).
-/

namespace Arrowlet

open Bytes

namespace CLiteral

/-- The backslash, which takes the byte after it into the literal. -/
abbrev backslash : UInt8 := 0x5c

/-- The rest of a literal up to the quote that ends it, and what follows it. `taken` says that a
backslash has taken the first byte. All bytes of a character beyond ASCII differ from a backslash
and a quote, so that taking its first byte is taking the character. -/
def rest? (taken : Bool) : Bytes → Option (Bytes × Bytes)
  | [] => none
  | b :: text =>
    if b = quote && !taken then some ([b], text)
    else (rest? (b = backslash && !taken) text).map (Prod.map (b :: ·) id)

/-- The string literal that a C text begins with, and what follows it. -/
def read? : Bytes → Option (Bytes × Bytes)
  | [] => none
  | b :: text => if b = quote then (rest? false text).map (Prod.map (b :: ·) id) else none

/-! ## Bytes that are taken -/

/-- Whether the byte after `body` is taken. -/
def takes (taken : Bool) (body : Bytes) : Bool :=
  body.foldl (fun taken b => b = backslash && !taken) taken

/-- How many backslashes a text ends with. -/
def backslashes (body : Bytes) : Nat := (body.reverse.takeWhile (· = backslash)).length

theorem backslashes_concat (body : Bytes) (b : UInt8) :
    backslashes (body ++ [b]) = if b = backslash then backslashes body + 1 else 0 := by
  by_cases hb : b = backslash <;> simp [backslashes, hb]

/-- The byte after a text is taken exactly if the text ends with an odd number of backslashes: they
take each other in pairs from the left. -/
theorem takes_iff_odd (body : Bytes) : takes false body ↔ Odd (backslashes body) := by
  induction body using List.reverseRecOn with
  | nil => simp [takes, backslashes]
  | append_singleton body b ih =>
    rw [backslashes_concat, takes, List.foldl_append]
    change (b = backslash && !takes false body) ↔ _
    by_cases hb : b = backslash
    · rw [if_pos hb, Nat.odd_add_one, ← ih]
      simp [hb]
    · simp [hb]

/-! ## Reading a literal -/

section
variable {taken : Bool} {body text : Bytes}

/-- A text without a quote is read over. -/
theorem rest?_append (hbody : quote ∉ body) (taken : Bool) (text : Bytes) :
    rest? taken (body ++ text) =
      (rest? (takes taken body) text).map (Prod.map (body ++ ·) id) := by
  induction body generalizing taken with
  | nil =>
    rw [List.nil_append, takes, List.foldl_nil]
    cases rest? taken text <;> rfl
  | cons b body ih =>
    obtain ⟨hb, hbody⟩ := not_or.mp (List.mem_cons.not.mp hbody)
    have hopen : (b = quote && !taken) = false := by simp [Ne.symm hb]
    rw [List.cons_append, rest?, hopen, if_neg Bool.false_ne_true, ih hbody, Option.map_map]
    rfl

/-- Without a quote, nothing ends a literal. -/
theorem rest?_eq_none (h : quote ∉ text) (taken : Bool) : rest? taken text = none := by
  rw [← List.append_nil text, rest?_append h, rest?, Option.map_none]

/-- What C reads where a quoted text stands: the quoted text, unless its last quote is taken, and
then nothing if no quote follows. -/
theorem read?_quoted (hbody : quote ∉ body) (htext : quote ∉ text) :
    read? (quote :: body ++ [quote] ++ text) =
      if takes false body then none else some (quote :: body ++ [quote], text) := by
  have hrest : rest? true (quote :: text) = none := by
    rw [rest?, if_neg (by decide), rest?_eq_none htext, Option.map_none]
  rw [List.append_assoc, List.cons_append, read?, if_pos rfl, rest?_append hbody,
    List.singleton_append]
  split
  · next htaken => rw [htaken, hrest, Option.map_none, Option.map_none]
  · next htaken =>
    rw [Bool.eq_false_iff.mpr htaken]
    rfl

end

end CLiteral

open CLiteral

/-- The line of a statement that prints. -/
theorem CText.stmt_write_eq_ok_iff {format line : Bytes} {value : Expr} :
    CText.stmt (.write format value) = .ok line ↔
      ∃ text, CText.expr value = .ok text ∧
        line = "printf(" ++ (format ++ (", " ++ text ++ ");")) := by
  rw [CText.stmt, bind_eq_ok_iff]
  simp only [List.append_assoc]
  constructor
  · rintro ⟨text, htext, hline⟩
    cases hline
    exact ⟨text, htext, rfl⟩
  · rintro ⟨text, htext, rfl⟩
    exact ⟨text, htext, rfl⟩

/-- **A format ends where C ends it, unless its last quote is escaped.** A statement that prints has
a line of the C text, which is its format and its value as arguments of `printf`. From the first
quote of the format on, C reads the format as a string literal and what follows as being outside, if
an even number of backslashes stands before the last quote of the format. If their number is odd,
the literal is not ended on the line. -/
theorem format_closes_unless_escaped {src code format : Bytes} {p : Program} {value : Expr}
    (hcode : compile src = .ok code) (hp : Reads src p) (hs : .write format value ∈ p) :
    ∃ body text line, format = quote :: body ++ [quote] ∧ CText.expr value = .ok text ∧
      CText.stmt (.write format value) = .ok line ∧ line ∈ code.lines ∧
      line = "printf(" ++ (format ++ (", " ++ text ++ ");")) ∧
      (Even (backslashes body) →
        read? (format ++ (", " ++ text ++ ");")) = some (format, ", " ++ text ++ ");")) ∧
      (Odd (backslashes body) → read? (format ++ (", " ++ text ++ ");")) = none) := by
  obtain ⟨q, hq, htoC⟩ := compile_eq_ok_iff.mp hcode
  cases hq.unique hp
  have hspelled := fun s hs => (hp.isSpelled s hs).1
  obtain ⟨ls, hls, hlines⟩ := Program.lines_toC hspelled htoC
  obtain ⟨line, hline, hstmt⟩ := exists_mem_of_map_eq_map_ok hls hs
  obtain ⟨text, htext, hwhole⟩ := CText.stmt_write_eq_ok_iff.mp hstmt
  obtain ⟨⟨body, rfl, hbody⟩, hvalue⟩ := hspelled _ hs
  have hinside : quote ∉ body := fun hmem => (hbody _ hmem).1 rfl
  have houtside : quote ∉ ", " ++ text ++ ");" := by
    simp only [List.mem_append, not_or]
    exact ⟨⟨by decide, CText.notMem_expr hvalue htext (by decide)⟩, by decide⟩
  have hquoted := read?_quoted hinside houtside
  refine ⟨body, text, line, rfl, htext, hstmt, ?_, hwhole, fun heven => ?_, fun hodd => ?_⟩
  · rw [hlines]
    exact List.mem_append_left _ (List.mem_append_right _ hline)
  · rw [hquoted, if_neg ((takes_iff_odd body).not.mpr (Nat.not_odd_iff_even.mpr heven))]
  · rw [hquoted, if_pos ((takes_iff_odd body).mpr hodd)]

/-- Two backslashes before the last quote are a pair, so that the quote is not escaped. -/
theorem format_closes_unless_escaped_pair :
    Reads "WRITE(\"a\\\\\", x);" [.write "\"a\\\\\"" (.name "x")] ∧
    CText.stmt (.write "\"a\\\\\"" (.name "x")) = .ok "printf(\"a\\\\\", x);" ∧
    read? "\"a\\\\\", x);" = some (("\"a\\\\\"" : Bytes), (", x);" : Bytes)) := by
  have hcode : compile "WRITE(\"a\\\\\", x);" =
      .ok (CText.header ++ "printf(\"a\\\\\", x);\n" ++ CText.footer) := by decide +kernel
  have hreads : Reads "WRITE(\"a\\\\\", x);" [.write "\"a\\\\\"" (.name "x")] :=
    ⟨[⟨.write, "WRITE", ⟨1, 1⟩⟩, ⟨.lparen, "(", ⟨1, 6⟩⟩, ⟨.string, "\"a\\\\\"", ⟨1, 7⟩⟩,
      ⟨.comma, ",", ⟨1, 12⟩⟩, ⟨.identifier, "x", ⟨1, 14⟩⟩, ⟨.rparen, ")", ⟨1, 15⟩⟩,
      ⟨.semicolon, ";", ⟨1, 16⟩⟩, ⟨.eof, [], ⟨1, 17⟩⟩], by decide +kernel, by decide +kernel⟩
  obtain ⟨body, text, line, hformat, htext, hstmt, -, hline, heven, -⟩ :=
    format_closes_unless_escaped hcode hreads (.head _)
  cases htext
  cases hline
  have hsame : quote :: ("a\\\\" : Bytes) ++ [quote] = quote :: body ++ [quote] := hformat
  obtain rfl := List.tail_eq_of_cons_eq (List.append_cancel_right hsame)
  exact ⟨hreads, hstmt, heven (by decide)⟩

/-- Not every format ends where C ends it: a single backslash escapes the last quote. -/
theorem format_left_open :
    ¬ ∀ (src code format line tail : Bytes) (p : Program) (value : Expr),
      compile src = .ok code → Reads src p → .write format value ∈ p →
      CText.stmt (.write format value) = .ok line → line = "printf(" ++ tail →
      ∃ rest, read? tail = some (format, rest) := by
  intro hclosed
  have hcode : compile "WRITE(\"\\\", 1);" =
      .ok (CText.header ++ "printf(\"\\\", 1);\n" ++ CText.footer) := by decide +kernel
  have hreads : Reads "WRITE(\"\\\", 1);" [.write "\"\\\"" (.number "1")] :=
    ⟨[⟨.write, "WRITE", ⟨1, 1⟩⟩, ⟨.lparen, "(", ⟨1, 6⟩⟩, ⟨.string, "\"\\\"", ⟨1, 7⟩⟩,
      ⟨.comma, ",", ⟨1, 10⟩⟩, ⟨.number, "1", ⟨1, 12⟩⟩, ⟨.rparen, ")", ⟨1, 13⟩⟩,
      ⟨.semicolon, ";", ⟨1, 14⟩⟩, ⟨.eof, [], ⟨1, 15⟩⟩], by decide +kernel, by decide +kernel⟩
  obtain ⟨rest, hrest⟩ := hclosed _ _ "\"\\\"" "printf(\"\\\", 1);" "\"\\\", 1);" _ _ hcode hreads
    (.head _) rfl rfl
  have hopen : read? "\"\\\", 1);" = none := by decide +kernel
  rw [hopen] at hrest
  cases hrest

end Arrowlet
