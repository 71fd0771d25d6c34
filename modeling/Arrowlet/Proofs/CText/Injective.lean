import Arrowlet.Compile
import Arrowlet.Proofs.CText.ReadBack

/-!
# Equal C texts come from equal programs

A C text of statements that are spelled and shaped can be taken apart again. Its lines end at the
line feeds, since no line holds one. Each line tells the keyword of its statement
(`CText.keyword?_of_stmt`): only `printf` and `scanf` lines hold quotes, and of the others only
definitions hold `=`. Within a line a name ends at the first space and a format at the second quote,
and an expression is read back from its C text. So different programs have different C texts
(`Program.toC_inj`).

With that, `compile_forgets_layout` says that compiling forgets the layout of a text and nothing
else.
-/

namespace Arrowlet

open Lexeme

/-- What stands before the first occurrence of a byte, and what stands after it, are determined. -/
theorem Bytes.append_cons_inj {b : UInt8} {w w' rest rest' : Bytes} (hw : b ∉ w) (hw' : b ∉ w')
    (h : w ++ b :: rest = w' ++ b :: rest') : w = w' ∧ rest = rest' := by
  have run : ∀ {w rest : Bytes}, b ∉ w → (w ++ b :: rest).takeWhile (· != b) = w := fun hw =>
    takeWhile_append_of_boundary (fun c hc => bne_iff_ne.mpr (ne_of_mem_of_not_mem hc hw)) (by simp)
  have hsame : w = w' := by rw [← run hw, h, run hw']
  subst hsame
  exact ⟨rfl, List.tail_eq_of_cons_eq (List.append_cancel_left h)⟩

/-! ## Lines -/

namespace CText

/-- Spelled and shaped expressions with the same C text are equal, since they are read back from
it. -/
theorem expr_inj {e f : Expr} {text : Bytes} (he : e.IsSpelled ∧ e.IsShaped)
    (hf : f.IsSpelled ∧ f.IsShaped) (hetext : expr e = .ok text) (hftext : expr f = .ok text) :
    e = f := by
  have hreads := (he.1.reads_iff hetext).mpr he.2
  have hreads' := (hf.1.reads_iff hftext).mpr hf.2
  cases hreads.unique hreads'
  rfl

/-- What is not plain is in no C text of an expression. -/
theorem notMem_expr {e : Expr} {text : Bytes} {b : UInt8} (h : e.IsSpelled)
    (htext : expr e = .ok text) (hb : ¬ isPlain b) : b ∉ text :=
  fun hmem => hb (h.isPlain htext b hmem)

/-- What is no part of a word is in no name. -/
theorem notMem_name {name : Bytes} {b : UInt8} (h : IsSpelling .identifier name)
    (hb : ¬ isWordPart b) : b ∉ name :=
  fun hmem => hb (h.1.isWordPart b hmem)

/-- A byte that is not plain is in the line of an expression only if it is the semicolon. -/
theorem notMem_eval_line {e : Expr} {text : Bytes} {b : UInt8} (h : e.IsSpelled)
    (htext : expr e = .ok text) (hb : ¬ isPlain b) (hfixed : b ∉ (";" : Bytes)) :
    b ∉ text ++ ";" := by
  rw [List.mem_append, not_or]
  exact ⟨notMem_expr h htext hb, hfixed⟩

/-- A byte that is not plain is in the line of a definition only if it is in its fixed part. -/
theorem notMem_define_line {name : Bytes} {e : Expr} {text : Bytes} {b : UInt8}
    (hname : IsSpelling .identifier name) (h : e.IsSpelled) (htext : expr e = .ok text)
    (hb : ¬ isPlain b) (hfixed : b ∉ ("double " ++ " = " ++ ";" : Bytes)) :
    b ∉ "double " ++ name ++ " = " ++ text ++ ";" := by
  have hword : ¬ isWordPart b := fun hword => hb (by simp [isPlain, hword])
  simp only [List.mem_append, not_or] at hfixed ⊢
  obtain ⟨⟨hdouble, hequals⟩, hstop⟩ := hfixed
  exact ⟨⟨⟨⟨hdouble, notMem_name hname hword⟩, hequals⟩, notMem_expr h htext hb⟩, hstop⟩

/-- The keyword of the statement that a line is written for. -/
def keyword? (line : Bytes) : Option Kind :=
  -- A format may hold `=` as well, so quotes come first.
  if Bytes.quote ∈ line then
    if line.head? = some 0x70 then some .write else some .read
  else if 0x3d ∈ line then some .define
  else none

end CText

/-- The keyword that a statement begins with. -/
def Stmt.keyword? : Stmt → Option Kind
  | define _ _ => some .define
  | write _ _ => some .write
  | read _ => some .read
  | eval _ | missing | unknown _ _ => none

namespace CText

variable {s t : Stmt} {line : Bytes}

/-- A line tells the keyword of its statement. -/
theorem keyword?_of_stmt (h : s.IsSpelled) (hline : stmt s = .ok line) :
    keyword? line = s.keyword? := by
  cases s with
  | define name value =>
    obtain ⟨text, htext, hline⟩ := bind_eq_ok_iff.mp hline
    cases hline
    have hquote := notMem_define_line (b := Bytes.quote) h.1 h.2 htext (by decide) (by decide)
    have hequals : 0x3d ∈ "double " ++ name ++ " = " ++ text ++ ";" :=
      List.mem_append_left _ (List.mem_append_left _ (List.mem_append_right _ (by decide)))
    exact (if_neg hquote).trans (if_pos hequals)
  | write format value =>
    obtain ⟨text, -, hline⟩ := bind_eq_ok_iff.mp hline
    cases hline
    obtain ⟨⟨body, rfl, -⟩, -⟩ := h
    exact (if_pos (by simp)).trans (if_pos rfl)
  | read name =>
    cases hline
    have hquote : Bytes.quote ∈ "scanf(\"%lf\", &" ++ name ++ ");" :=
      List.mem_append_left _ (List.mem_append_left _ (by decide))
    exact (if_pos hquote).trans (if_neg nofun)
  | eval value =>
    obtain ⟨text, htext, hline⟩ := bind_eq_ok_iff.mp hline
    cases hline
    have hquote := notMem_eval_line (b := Bytes.quote) h htext (by decide) (by decide)
    have hequals := notMem_eval_line (b := 0x3d) h htext (by decide) (by decide)
    exact (if_neg hquote).trans (if_neg hequals)
  | missing | unknown => exact h.elim

/-- A line holds no line feed. -/
theorem lineFeed_notMem_of_stmt (h : s.IsSpelled) (hline : stmt s = .ok line) :
    Bytes.lineFeed ∉ line := by
  cases s with
  | define name value =>
    obtain ⟨text, htext, hline⟩ := bind_eq_ok_iff.mp hline
    cases hline
    exact notMem_define_line h.1 h.2 htext (by decide) (by decide)
  | write format value =>
    obtain ⟨text, htext, hline⟩ := bind_eq_ok_iff.mp hline
    cases hline
    have hformat : Bytes.lineFeed ∉ format := by
      obtain ⟨⟨body, rfl, hbody⟩, -⟩ := h
      simp only [List.cons_append, List.mem_cons, List.mem_append, List.not_mem_nil, or_false,
        not_or]
      exact ⟨by decide, fun hb => (hbody _ hb).2 rfl, by decide⟩
    simp only [List.mem_append, not_or]
    exact ⟨⟨⟨⟨by decide, hformat⟩, by decide⟩, notMem_expr h.2 htext (by decide)⟩, by decide⟩
  | read name =>
    cases hline
    simp only [List.mem_append, not_or]
    exact ⟨⟨by decide, notMem_name h (by decide)⟩, by decide⟩
  | eval value =>
    obtain ⟨text, htext, hline⟩ := bind_eq_ok_iff.mp hline
    cases hline
    exact notMem_eval_line h htext (by decide) (by decide)
  | missing | unknown => exact h.elim

/-- The line of a definition gives its name and the text of its value: the name ends at the first
space. -/
theorem define_line_inj {name name' text text' : Bytes} (h : IsSpelling .identifier name)
    (h' : IsSpelling .identifier name')
    (hline : "double " ++ name ++ " = " ++ text ++ ";" =
      "double " ++ name' ++ " = " ++ text' ++ ";") : name = name' ∧ text = text' := by
  have hline := List.append_cancel_right hline
  simp only [List.append_assoc] at hline
  have hline : name ++ Bytes.space :: ("= " ++ text) = name' ++ Bytes.space :: ("= " ++ text') :=
    List.append_cancel_left hline
  obtain ⟨hname, hrest⟩ :=
    Bytes.append_cons_inj (notMem_name h (by decide)) (notMem_name h' (by decide)) hline
  exact ⟨hname, List.append_cancel_left hrest⟩

/-- The line of an output gives its format and the text of its value: the format ends at the second
quote. -/
theorem write_line_inj {format format' text text' : Bytes} (h : IsSpelling .string format)
    (h' : IsSpelling .string format')
    (hline : "printf(" ++ format ++ ", " ++ text ++ ");" =
      "printf(" ++ format' ++ ", " ++ text' ++ ");") : format = format' ∧ text = text' := by
  obtain ⟨body, rfl, hbody⟩ := h
  obtain ⟨body', rfl, hbody'⟩ := h'
  have hline := List.append_cancel_right hline
  simp only [List.append_assoc, List.cons_append, List.nil_append] at hline
  have hline := List.tail_eq_of_cons_eq (List.append_cancel_left hline)
  obtain ⟨rfl, hrest⟩ := Bytes.append_cons_inj (fun hb => (hbody _ hb).1 rfl)
    (fun hb => (hbody' _ hb).1 rfl) hline
  exact ⟨rfl, List.append_cancel_left hrest⟩

/-- Different statements have different lines. -/
theorem stmt_inj (hs : s.IsSpelled ∧ s.IsShaped) (ht : t.IsSpelled ∧ t.IsShaped)
    (hsline : stmt s = .ok line) (htline : stmt t = .ok line) : s = t := by
  have hkeyword := (keyword?_of_stmt hs.1 hsline).symm.trans (keyword?_of_stmt ht.1 htline)
  have expr : ∀ {e f : Expr} {text : Bytes}, e ∈ s.exprs → f ∈ t.exprs → expr e = .ok text →
      expr f = .ok text → e = f := fun he hf =>
    expr_inj ⟨hs.1.of_mem_exprs _ he, hs.2 _ he⟩ ⟨ht.1.of_mem_exprs _ hf, ht.2 _ hf⟩
  cases s with
  | define name value =>
    cases t with
    | define name' value' =>
      obtain ⟨text, htext, hsline⟩ := bind_eq_ok_iff.mp hsline
      obtain ⟨text', htext', htline⟩ := bind_eq_ok_iff.mp htline
      cases hsline
      obtain ⟨rfl, rfl⟩ := define_line_inj ht.1.1 hs.1.1 (Except.ok.inj htline)
      rw [expr (by simp [Stmt.exprs]) (by simp [Stmt.exprs]) htext htext']
    | write | read | eval | missing | unknown => cases hkeyword
  | write format value =>
    cases t with
    | write format' value' =>
      obtain ⟨text, htext, hsline⟩ := bind_eq_ok_iff.mp hsline
      obtain ⟨text', htext', htline⟩ := bind_eq_ok_iff.mp htline
      cases hsline
      obtain ⟨rfl, rfl⟩ := write_line_inj ht.1.1 hs.1.1 (Except.ok.inj htline)
      rw [expr (by simp [Stmt.exprs]) (by simp [Stmt.exprs]) htext htext']
    | define | read | eval | missing | unknown => cases hkeyword
  | read name =>
    cases t with
    | read name' =>
      cases hsline
      have hname := List.append_cancel_left (List.append_cancel_right (Except.ok.inj htline))
      rw [hname]
    | define | write | eval | missing | unknown => cases hkeyword
  | eval value =>
    cases t with
    | eval value' =>
      obtain ⟨text, htext, hsline⟩ := bind_eq_ok_iff.mp hsline
      obtain ⟨text', htext', htline⟩ := bind_eq_ok_iff.mp htline
      cases hsline
      cases List.append_cancel_right (Except.ok.inj htline)
      rw [expr (by simp [Stmt.exprs]) (by simp [Stmt.exprs]) htext htext']
    | missing | unknown => exact ht.1.elim
    | define | write | read => cases hkeyword
  | missing | unknown => exact hs.1.elim

/-! ## Programs -/

/-- Statements are written line by line. -/
theorem stmts_cons_eq_ok_iff {p : List Stmt} {n : Nat} {text : Bytes} :
    stmts n (s :: p) = .ok text ↔ ∃ line lines, stmt s = .ok line ∧
      stmts (n + 1) p = .ok lines ∧ text = line ++ Bytes.lineFeed :: lines := by
  rw [stmts, bind_eq_ok_iff]
  simp only [bind_eq_ok_iff, mapError_eq_ok_iff]
  constructor
  · rintro ⟨line, hline, lines, hlines, htext⟩
    cases htext
    exact ⟨line, lines, hline, hlines, List.append_assoc ..⟩
  · rintro ⟨line, lines, hline, hlines, rfl⟩
    exact ⟨line, hline, lines, hlines, congrArg Except.ok (List.append_assoc ..)⟩

/-- Different statements have different C texts, whatever they are numbered from. -/
theorem stmts_inj {p q : List Stmt} {m n : Nat} {text : Bytes}
    (hp : ∀ s ∈ p, s.IsSpelled ∧ s.IsShaped) (hq : ∀ s ∈ q, s.IsSpelled ∧ s.IsShaped)
    (hptext : stmts m p = .ok text) (hqtext : stmts n q = .ok text) : p = q := by
  induction p generalizing q m n text with
  | nil =>
    cases q with
    | nil => rfl
    | cons t q =>
      obtain ⟨line, lines, -, -, rfl⟩ := stmts_cons_eq_ok_iff.mp hqtext
      exact absurd (Except.ok.inj hptext) (by simp)
  | cons s p ih =>
    obtain ⟨line, lines, hline, hlines, rfl⟩ := stmts_cons_eq_ok_iff.mp hptext
    cases q with
    | nil => exact absurd (Except.ok.inj hqtext) (by simp)
    | cons t q =>
      obtain ⟨hs, hp⟩ := List.forall_mem_cons.mp hp
      obtain ⟨ht, hq⟩ := List.forall_mem_cons.mp hq
      obtain ⟨line', lines', hline', hlines', hsame⟩ := stmts_cons_eq_ok_iff.mp hqtext
      obtain ⟨rfl, rfl⟩ := Bytes.append_cons_inj (lineFeed_notMem_of_stmt hs.1 hline)
        (lineFeed_notMem_of_stmt ht.1 hline') hsame
      rw [stmt_inj hs ht hline hline', ih hp hq hlines hlines']

end CText

/-- Different programs have different C texts. -/
theorem Program.toC_inj {p q : Program} {text : Bytes}
    (hp : ∀ s ∈ p, s.IsSpelled ∧ s.IsShaped) (hq : ∀ s ∈ q, s.IsSpelled ∧ s.IsShaped)
    (hptext : p.toC = .ok text) (hqtext : q.toC = .ok text) : p = q := by
  obtain ⟨lines, hlines, hptext⟩ := bind_eq_ok_iff.mp hptext
  obtain ⟨lines', hlines', hqtext⟩ := bind_eq_ok_iff.mp hqtext
  cases hptext
  cases List.append_cancel_left (List.append_cancel_right (Except.ok.inj hqtext))
  exact CText.stmts_inj hp hq hlines hlines'

/-! ## Compiling -/

/-- Two texts have tokens with the same kinds and lexemes. -/
def SameTokens (src src' : Bytes) : Prop :=
  ∃ ts ts', lex src = .ok ts ∧ lex src' = .ok ts' ∧ ts.map Token.spelling = ts'.map Token.spelling

/-- A text with tokens is read as a program exactly if the program is not empty, its statements are
complete and shaped, and it flattens to the spellings of the tokens. -/
theorem reads_iff_spelling {src : Bytes} {ts : List Token} {p : Program} (h : lex src = .ok ts) :
    Reads src p ↔ p ≠ [] ∧ (∀ s ∈ p, s.IsComplete ∧ s.IsShaped) ∧
      ts.map Token.spelling = p.flatten ++ [(.eof, [])] := by
  obtain ⟨hsrc, d, hd, rfl, rfl⟩ := lex_eq_ok_iff.mp h
  rw [hd.reads_iff hsrc, Layout.tokens, Layout.map_spelling_tokensFrom, List.append_left_inj,
    Layout.spellings]

/-- Texts with the same tokens are read as the same programs. -/
theorem SameTokens.reads {src src' : Bytes} {p : Program} (h : SameTokens src src')
    (hp : Reads src p) : Reads src' p := by
  obtain ⟨ts, ts', hts, hts', hsame⟩ := h
  rw [reads_iff_spelling hts, hsame] at hp
  exact (reads_iff_spelling hts').mpr hp

/-- Texts that are read as the same program have the same tokens. -/
theorem Reads.sameTokens {src src' : Bytes} {p : Program} (h : Reads src p) (h' : Reads src' p) :
    SameTokens src src' := by
  have ⟨ts, hts, _⟩ := h
  have ⟨ts', hts', _⟩ := h'
  have hflat := ((reads_iff_spelling hts).mp h).2.2
  have hflat' := ((reads_iff_spelling hts').mp h').2.2
  exact ⟨ts, ts', hts, hts', hflat.trans hflat'.symm⟩

/-- A text compiles to the C text of the program that it is read as. -/
theorem compile_eq_ok_iff {src text : Bytes} :
    compile src = .ok text ↔ ∃ p, Reads src p ∧ p.toC = .ok text := by
  simp only [compile, bind_eq_ok_iff, mapError_eq_ok_iff, generate]
  constructor
  · rintro ⟨ts, hts, p, hp, htext⟩
    exact ⟨p, ⟨ts, hts, hp⟩, htext⟩
  · rintro ⟨p, ⟨ts, hts, hp⟩, htext⟩
    exact ⟨ts, hts, p, hp, htext⟩

/-- **Compiling forgets the layout and nothing else.** Texts that compile have the same C text
exactly if they have the same tokens, and a text with the tokens of one that compiles compiles too.
-/
theorem compile_forgets_layout (src src' : Bytes) :
    (∀ text text', compile src = .ok text → compile src' = .ok text' →
      (text = text' ↔ SameTokens src src')) ∧
    (∀ text, compile src = .ok text → SameTokens src src' → compile src' = .ok text) := by
  have hkeep : ∀ text, compile src = .ok text → SameTokens src src' →
      compile src' = .ok text := by
    intro text htext hsame
    obtain ⟨p, hp, htext⟩ := compile_eq_ok_iff.mp htext
    exact compile_eq_ok_iff.mpr ⟨p, hsame.reads hp, htext⟩
  refine ⟨fun text text' htext htext' => ⟨?_, fun hsame => ?_⟩, hkeep⟩
  · rintro rfl
    obtain ⟨p, hp, htext⟩ := compile_eq_ok_iff.mp htext
    obtain ⟨q, hq, htext'⟩ := compile_eq_ok_iff.mp htext'
    cases Program.toC_inj hp.isSpelled hq.isSpelled htext htext'
    exact hp.sameTokens hq
  · exact Except.ok.inj ((hkeep text htext hsame).symm.trans htext')

/-- A definition that is spread over two lines has the C text of the one that is not. -/
theorem compile_forgets_layout_definition :
    SameTokens "DEF x<-1;" "DEF\tx\n<- 1 ;" ∧
      ∃ text, compile "DEF x<-1;" = .ok text ∧ compile "DEF\tx\n<- 1 ;" = .ok text := by
  have hsame : SameTokens "DEF x<-1;" "DEF\tx\n<- 1 ;" :=
    ⟨[⟨.define, "DEF", ⟨1, 1⟩⟩, ⟨.identifier, "x", ⟨1, 5⟩⟩, ⟨.arrow, "<-", ⟨1, 6⟩⟩,
        ⟨.number, "1", ⟨1, 8⟩⟩, ⟨.semicolon, ";", ⟨1, 9⟩⟩, ⟨.eof, [], ⟨1, 10⟩⟩],
      [⟨.define, "DEF", ⟨1, 1⟩⟩, ⟨.identifier, "x", ⟨1, 5⟩⟩, ⟨.arrow, "<-", ⟨2, 1⟩⟩,
        ⟨.number, "1", ⟨2, 4⟩⟩, ⟨.semicolon, ";", ⟨2, 6⟩⟩, ⟨.eof, [], ⟨2, 7⟩⟩],
      by decide +kernel, by decide +kernel, rfl⟩
  have htext : compile "DEF x<-1;" = .ok (CText.header ++ "double x = 1;\n" ++ CText.footer) := by
    decide +kernel
  exact ⟨hsame, _, htext, (compile_forgets_layout _ _).2 _ htext hsame⟩

end Arrowlet
