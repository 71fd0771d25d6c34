import Arrowlet.Program.DebugText
import Arrowlet.Proofs.CText.Injective

/-!
# The debug text of a tree is unambiguous

The lexemes of a debug text are spelled as tokens are, and a blank or a mark stands between them. So
each of them ends where reading it ends, whatever follows (`Lexeme.append_inj`), and the debug text
of an expression can be taken apart from the left: a parenthesis and the lexeme after it tell
operators and groups apart, and what is left begins with the debug texts of the operands. The word
`group` is no operator, and a variable of that name has no parenthesis in front.

This is an induction over the tree with the text after it left open (`Expr.debugText_append_inj`). A
statement ends with the parenthesis that closes it, and formats are quoted, so that it does not
matter what they hold (`Stmt.debugText_append_inj`). The shape of the trees does not matter either:
every node has parentheses of its own.
-/

namespace Arrowlet

open Lexeme

/-- A lexeme at the beginning of a text is determined, with what follows it, if that does not go on
with it. -/
theorem Lexeme.append_inj {kind kind' : Kind} {w w' rest rest' : Bytes} (hw : IsSpelling kind w)
    (hw' : IsSpelling kind' w') (hrest : ∀ b ∈ rest.head?, continues kind b = false)
    (hrest' : ∀ b ∈ rest'.head?, continues kind' b = false) (h : w ++ rest = w' ++ rest') :
    kind = kind' ∧ w = w' ∧ rest = rest' := by
  have hread := read?_complete hw hrest
  rw [h, read?_complete hw' hrest'] at hread
  cases hread
  exact ⟨rfl, rfl, List.append_cancel_left h⟩

/-- The text begins with a space or a closing parenthesis, if it is not empty. -/
def Closes (rest : Bytes) : Prop := ∀ b ∈ rest.head?, b = Bytes.space ∨ b = 0x29

theorem closes_space (rest : Bytes) : Closes (" " ++ rest) := by
  intro b hb
  cases hb
  exact .inl rfl

theorem closes_rparen (rest : Bytes) : Closes (")" ++ rest) := by
  intro b hb
  cases hb
  exact .inr rfl

/-- No lexeme goes on with a text that closes. -/
theorem Closes.continues_eq_false {rest : Bytes} (h : Closes rest) (kind : Kind) :
    ∀ b ∈ rest.head?, continues kind b = false := by
  intro b hb
  rcases h b hb with rfl | rfl
  · exact continues_eq_false_of_isBlank kind (by decide)
  · cases kind <;> rfl

/-! ## Expressions -/

namespace Expr

/-- The first lexeme of the debug text of an expression. -/
def opening : Expr → Kind × Bytes
  | number text => (.number, text)
  | name text => (.identifier, text)
  | binary _ _ _ | group _ | missing | unknown _ _ => (.lparen, "(")

theorem debugText_binary_append (op : Kind) (left right : Expr) (rest : Bytes) :
    (binary op left right).debugText ++ rest = "(" ++ (op.symbol ++ (" " ++
      (left.debugText ++ (" " ++ (right.debugText ++ (")" ++ rest)))))) := by
  simp only [debugText, List.append_assoc]

theorem debugText_group_append (inner : Expr) (rest : Bytes) :
    (group inner).debugText ++ rest =
      "(" ++ ("group" ++ (" " ++ (inner.debugText ++ (")" ++ rest)))) := by
  simp only [debugText, List.append_assoc]
  rfl

theorem isSpelling_group : IsSpelling .identifier "group" :=
  ⟨⟨by decide, List.all_eq_true.mp (by decide)⟩, by decide⟩

variable {e f : Expr} {rest rest' : Bytes}

/-- The debug text of an expression is read lexeme by lexeme. -/
theorem IsSpelled.read?_debugText (h : e.IsSpelled) (hrest : Closes rest) :
    read? (e.debugText ++ rest) = some e.opening := by
  have hparen : IsSpelling .lparen "(" := rfl
  cases e with
  | number text | name text => exact read?_complete h (hrest.continues_eq_false _)
  | binary op left right =>
    rw [debugText_binary_append]
    refine read?_complete hparen fun b hb => ?_
    obtain ⟨c, w, hsymbol, hc⟩ := (Kind.isSpelling_symbol_of_isOperator h.1).exists_head
    rw [hsymbol] at hb
    cases hb
    simpa [continues] using hc.head_cases.2.2
  | group inner =>
    rw [debugText_group_append]
    refine read?_complete hparen fun b hb => ?_
    cases hb
    rfl
  | missing | unknown => exact h.elim

/-- Equal texts that begin with debug texts begin with the same lexeme. -/
theorem IsSpelled.opening_eq (he : e.IsSpelled) (hf : f.IsSpelled) (hrest : Closes rest)
    (hrest' : Closes rest') (h : e.debugText ++ rest = f.debugText ++ rest') :
    e.opening = f.opening := by
  have hread := he.read?_debugText hrest
  rw [h, hf.read?_debugText hrest', Option.some.injEq] at hread
  exact hread.symm

/-- **Unique reading.** Where the debug text of an expression is followed by a space or a closing
parenthesis, the expression and what follows are determined. -/
theorem debugText_append_inj (he : e.IsSpelled) (hf : f.IsSpelled) (hrest : Closes rest)
    (hrest' : Closes rest') (h : e.debugText ++ rest = f.debugText ++ rest') :
    e = f ∧ rest = rest' := by
  have hspace := fun rest => (closes_space rest).continues_eq_false
  induction e generalizing f rest rest' with
  | number text =>
    have hopening := he.opening_eq hf hrest hrest' h
    cases f with
    | number text' =>
      cases hopening
      exact ⟨rfl, List.append_cancel_left h⟩
    | name | binary | group => cases hopening
    | missing | unknown => exact hf.elim
  | name text =>
    have hopening := he.opening_eq hf hrest hrest' h
    cases f with
    | name text' =>
      cases hopening
      exact ⟨rfl, List.append_cancel_left h⟩
    | number | binary | group => cases hopening
    | missing | unknown => exact hf.elim
  | binary op left right ihl ihr =>
    cases f with
    | number | name => cases he.opening_eq hf hrest hrest' h
    | binary op' left' right' =>
      rw [debugText_binary_append, debugText_binary_append] at h
      obtain ⟨rfl, -, hop⟩ := append_inj (Kind.isSpelling_symbol_of_isOperator he.1)
        (Kind.isSpelling_symbol_of_isOperator hf.1) (hspace _ _) (hspace _ _)
        (List.append_cancel_left h)
      obtain ⟨rfl, hleft⟩ := ihl he.2.1 hf.2.1 (closes_space _) (closes_space _)
        (List.append_cancel_left hop)
      obtain ⟨rfl, hright⟩ := ihr he.2.2 hf.2.2 (closes_rparen _) (closes_rparen _)
        (List.append_cancel_left hleft)
      exact ⟨rfl, List.append_cancel_left hright⟩
    | group inner' =>
      -- The word after the parenthesis is no operator.
      rw [debugText_binary_append, debugText_group_append] at h
      obtain ⟨rfl, -⟩ := append_inj (Kind.isSpelling_symbol_of_isOperator he.1) isSpelling_group
        (hspace _ _) (hspace _ _) (List.append_cancel_left h)
      cases he.1
    | missing | unknown => exact hf.elim
  | group inner ih =>
    cases f with
    | number | name => cases he.opening_eq hf hrest hrest' h
    | binary op left right =>
      rw [debugText_binary_append, debugText_group_append] at h
      obtain ⟨rfl, -⟩ := append_inj isSpelling_group (Kind.isSpelling_symbol_of_isOperator hf.1)
        (hspace _ _) (hspace _ _) (List.append_cancel_left h)
      cases hf.1
    | group inner' =>
      rw [debugText_group_append, debugText_group_append] at h
      have hinner := List.append_cancel_left (List.append_cancel_left (List.append_cancel_left h))
      obtain ⟨rfl, hclose⟩ := ih (f := inner') he hf (closes_rparen _) (closes_rparen _) hinner
      exact ⟨rfl, List.append_cancel_left hclose⟩
    | missing | unknown => exact hf.elim
  | missing | unknown => exact he.elim

end Expr

/-! ## Statements -/

/-- The keyword of the statement whose debug text begins with a given byte. -/
def DebugText.keyword? (first : UInt8) : Option Kind :=
  if first = 0x41 then some .define
  else if first = 0x50 then some .write
  else if first = 0x53 then some .read
  else none

namespace Stmt

variable {s t : Stmt} {rest rest' : Bytes}

/-- The first byte of the debug text of a statement tells its keyword. -/
theorem IsSpelled.keyword?_debugText (h : s.IsSpelled) (rest : Bytes) :
    (s.debugText ++ rest).head?.bind DebugText.keyword? = s.keyword? := by
  cases s with
  | define | write | read | eval => rfl
  | missing | unknown => exact h.elim

/-- A statement is determined by a text that begins with its debug text, and so is what follows. -/
theorem debugText_append_inj (hs : s.IsSpelled) (ht : t.IsSpelled)
    (h : s.debugText ++ rest = t.debugText ++ rest') : s = t ∧ rest = rest' := by
  have hkeyword : s.keyword? = t.keyword? := by
    rw [← hs.keyword?_debugText rest, h, ht.keyword?_debugText]
  have hspace := fun rest => (closes_space rest).continues_eq_false .identifier
  have hrparen := fun rest => (closes_rparen rest).continues_eq_false .identifier
  cases s with
  | define name value =>
    cases t with
    | define name' value' =>
      have hequals : (" = " : Bytes) = " " ++ "= " := rfl
      simp only [debugText, hequals, List.append_assoc] at h
      obtain ⟨-, rfl, hname⟩ := append_inj hs.1 ht.1 (hspace _) (hspace _)
        (List.append_cancel_left h)
      obtain ⟨rfl, hvalue⟩ := Expr.debugText_append_inj hs.2 ht.2 (closes_rparen _)
        (closes_rparen _) (List.append_cancel_left (List.append_cancel_left hname))
      exact ⟨rfl, List.append_cancel_left hvalue⟩
    | write | read | eval | missing | unknown => cases hkeyword
  | write format value =>
    cases t with
    | write format' value' =>
      simp only [debugText, List.append_assoc] at h
      obtain ⟨-, rfl, hformat⟩ := append_inj hs.1 ht.1 (fun _ _ => rfl) (fun _ _ => rfl)
        (List.append_cancel_left h)
      obtain ⟨rfl, hvalue⟩ := Expr.debugText_append_inj hs.2 ht.2 (closes_rparen _)
        (closes_rparen _) (List.append_cancel_left hformat)
      exact ⟨rfl, List.append_cancel_left hvalue⟩
    | define | read | eval | missing | unknown => cases hkeyword
  | read name =>
    cases t with
    | read name' =>
      have hspelled : IsSpelling .identifier name ∧ IsSpelling .identifier name' := ⟨hs, ht⟩
      simp only [debugText, List.append_assoc] at h
      obtain ⟨-, rfl, hname⟩ := append_inj hspelled.1 hspelled.2 (hrparen _) (hrparen _)
        (List.append_cancel_left h)
      exact ⟨rfl, List.append_cancel_left hname⟩
    | define | write | eval | missing | unknown => cases hkeyword
  | eval value =>
    cases t with
    | eval value' =>
      simp only [debugText, List.append_assoc] at h
      obtain ⟨rfl, hvalue⟩ := Expr.debugText_append_inj hs ht (closes_rparen _) (closes_rparen _)
        (List.append_cancel_left h)
      exact ⟨rfl, List.append_cancel_left hvalue⟩
    | define | write | read => cases hkeyword
    | missing | unknown => exact ht.elim
  | missing | unknown => exact hs.elim

end Stmt

theorem Program.debugText_cons (s : Stmt) (p : Program) :
    Program.debugText (s :: p) = s.debugText ++ ("\n" ++ p.debugText) := by
  rw [Program.debugText, List.flatMap_cons, List.append_assoc]
  rfl

/-- A program with statements has a debug text. -/
theorem Program.debugText_cons_ne_nil (s : Stmt) (p : Program) :
    Program.debugText (s :: p) ≠ [] := by
  intro h
  rw [debugText_cons] at h
  cases (List.append_eq_nil_iff.mp h).2

/-- **The debug text is unambiguous.** Programs of spelled statements, whatever the shape of their
trees, have the same debug text only if they are equal. -/
theorem debugText_determines_program {p q : Program} (hp : ∀ s ∈ p, s.IsSpelled)
    (hq : ∀ s ∈ q, s.IsSpelled) : p.debugText = q.debugText ↔ p = q := by
  refine ⟨fun h => ?_, congrArg _⟩
  induction p generalizing q with
  | nil =>
    cases q with
    | nil => rfl
    | cons t q => exact absurd h.symm (Program.debugText_cons_ne_nil t q)
  | cons s p ih =>
    cases q with
    | nil => exact absurd h (Program.debugText_cons_ne_nil s p)
    | cons t q =>
      obtain ⟨hs, hothers⟩ := List.forall_mem_cons.mp hp
      obtain ⟨ht, hothers'⟩ := List.forall_mem_cons.mp hq
      rw [Program.debugText_cons, Program.debugText_cons] at h
      obtain ⟨rfl, hrest⟩ := Stmt.debugText_append_inj hs ht h
      rw [ih hothers hothers' (List.append_cancel_left hrest)]

/-- Subtracts from the left. -/
def leftDifference : Program :=
  [.eval (.binary .minus (.binary .minus (.name "group") (.name "b")) (.number "1.5"))]

/-- Subtracts from the right. -/
def rightDifference : Program :=
  [.eval (.binary .minus (.name "group") (.binary .minus (.name "b") (.number "1.5")))]

/-- The C text has no parentheses for these trees, so only the debug text tells them apart. -/
theorem debugText_determines_program_differences :
    (∀ s ∈ leftDifference, s.IsSpelled) ∧ (∀ s ∈ rightDifference, s.IsSpelled) ∧
      leftDifference.toC = rightDifference.toC ∧
      leftDifference.debugText ≠ rightDifference.debugText := by
  have hb : IsSpelling .identifier "b" := ⟨⟨by decide, List.forall_mem_nil _⟩, by decide⟩
  have hnumber : IsSpelling .number "1.5" :=
    .inr ⟨"1", "5", rfl, ⟨by decide, List.all_eq_true.mp (by decide)⟩,
      ⟨by decide, List.all_eq_true.mp (by decide)⟩⟩
  have hleft : ∀ s ∈ leftDifference, s.IsSpelled :=
    List.forall_mem_singleton.mpr ⟨rfl, ⟨rfl, Expr.isSpelling_group, hb⟩, hnumber⟩
  have hright : ∀ s ∈ rightDifference, s.IsSpelled :=
    List.forall_mem_singleton.mpr ⟨rfl, Expr.isSpelling_group, rfl, hb, hnumber⟩
  exact ⟨hleft, hright, rfl, (debugText_determines_program hleft hright).not.mpr (by decide)⟩

end Arrowlet
