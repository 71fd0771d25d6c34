import Arrowlet.Proofs.Program.Shape
import Arrowlet.Proofs.Token.Layout
import Mathlib.Data.List.Forall2

/-!
# Parsing inverts unparsing

A program is unparsed by `Program.flatten`. `parse_inverts_flatten` says that tokens spelled like
that parse as the program if it is one that parsing can give (`Program.IsShaped`), whatever their
positions, and that parsing gives no other programs: what it gives flattens to the tokens that it
was read from, up to the lexemes of tokens whose kind has a symbol.

Tokens with operators of one level between them are the flattening of a tree that leans to the left
(`Expr.flatten_chain`), and this tree is shaped (`Expr.OneLevel.isShaped_chain`), so it is the one
that they parse as.
-/

namespace Arrowlet

open Grammar

/-! ## Spellings of a program -/

/-- A token has the kind of a spelling and, if the lexemes of the kind vary, its text. -/
def Token.Agrees (t : Token) (l : Kind × Bytes) : Prop :=
  t.kind = l.1 ∧ (t.kind ∈ [Kind.identifier, .number, .string] → t.lexeme = l.2)

theorem Token.agrees_content (t : Token) : t.Agrees t.content := by
  refine ⟨rfl, fun hkind => ?_⟩
  have hsymbol : t.kind.symbol = [] := by
    simp only [List.mem_cons, List.not_mem_nil, or_false] at hkind
    rcases hkind with h | h | h <;> rw [h] <;> rfl
  rw [content_of_lexeme hsymbol rfl]

/-- A kind that has a symbol is spelled like that. -/
def IsFixed (l : Kind × Bytes) : Prop := l.1.symbol ≠ [] → l.2 = l.1.symbol

theorem Kind.isFixed (kind : Kind) : IsFixed kind.fixed := fun _ => rfl

theorem isFixed_of_symbol {kind : Kind} {text : Bytes} (h : kind.symbol = []) :
    IsFixed (kind, text) := fun hsymbol => absurd h hsymbol

theorem Expr.isFixed_of_mem_flatten (e : Expr) : ∀ l ∈ e.flatten, IsFixed l := by
  induction e with
  | number | name => exact List.forall_mem_singleton.mpr (isFixed_of_symbol rfl)
  | binary op left right ihl ihr =>
    rw [flatten, List.forall_mem_append, List.forall_mem_cons]
    exact ⟨ihl, op.isFixed, ihr⟩
  | group inner ih =>
    rw [flatten, List.forall_mem_append, List.forall_mem_cons, List.forall_mem_singleton]
    exact ⟨⟨Kind.isFixed _, ih⟩, Kind.isFixed _⟩
  | missing | unknown => exact List.forall_mem_nil _

theorem Stmt.isFixed_of_mem_flatten (s : Stmt) : ∀ l ∈ s.flatten, IsFixed l := by
  have hvalue := Expr.isFixed_of_mem_flatten
  have hfixed := Kind.isFixed
  have hnil := List.forall_mem_nil IsFixed
  cases s with
  | define name value =>
    simp only [flatten, List.forall_mem_append, List.forall_mem_cons]
    exact ⟨⟨hfixed _, isFixed_of_symbol rfl, hfixed _, hvalue _⟩, hfixed _, hnil⟩
  | write format value =>
    simp only [flatten, List.forall_mem_append, List.forall_mem_cons]
    exact ⟨⟨hfixed _, hfixed _, isFixed_of_symbol rfl, hfixed _, hvalue _⟩, hfixed _, hfixed _,
      hnil⟩
  | read name =>
    simp only [flatten, List.forall_mem_cons]
    exact ⟨hfixed _, hfixed _, isFixed_of_symbol rfl, hfixed _, hfixed _, hnil⟩
  | eval value =>
    simp only [flatten, List.forall_mem_append, List.forall_mem_cons]
    exact ⟨hvalue _, hfixed _, hnil⟩
  | missing | unknown => exact hnil

/-- Tokens that are spelled as a program flattens have the content that it flattens to. -/
theorem Program.content_of_spelling {p : Program} {ts : List Token}
    (h : ts.map Token.spelling = p.flatten) : ts.map Token.content = p.flatten := by
  rw [← h]
  refine List.map_congr_left fun t ht => ?_
  have hmem : t.spelling ∈ p.flatten := h ▸ List.mem_map_of_mem ht
  obtain ⟨s, -, hs⟩ := List.mem_flatMap.mp hmem
  have hfixed : t.kind.symbol ≠ [] → t.lexeme = t.kind.symbol := s.isFixed_of_mem_flatten _ hs
  rw [Token.content]
  split
  · rfl
  · next hsymbol => rw [← hfixed hsymbol, Token.spelling]

/-! ## Programs that parsing gives -/

/-- The program is not empty, and its statements are complete and shaped. -/
def Program.IsShaped (p : Program) : Prop := p ≠ [] ∧ ∀ s ∈ p, s.IsComplete ∧ s.IsShaped

/-- No end of the input is in what a shaped program flattens to. -/
theorem Program.IsShaped.beforeEnd_append {p : Program} (h : p.IsShaped) {ts rest : List Token}
    (hts : ts.map Token.content = p.flatten) (hend : Parser.atEnd rest) :
    beforeEnd (ts ++ rest) = ts := by
  have hderived : Grammar.Program ts p := program_iff_flatten.mpr ⟨h.1, h.2, hts⟩
  exact Arrowlet.beforeEnd_append hderived.kind_ne_eof hend

/-- Tokens that are spelled as a shaped program flattens parse as that program. -/
theorem Program.IsShaped.parse_eq_ok {p : Program} (h : p.IsShaped) {ts rest : List Token}
    (hts : ts.map Token.spelling = p.flatten) (hend : Parser.atEnd rest) :
    parse (ts ++ rest) = .ok p := by
  have hcontent := content_of_spelling hts
  rw [parse_eq_ok_iff_flatten, h.beforeEnd_append hcontent hend]
  exact ⟨h.1, h.2, hcontent⟩

/-- What tokens parse as is shaped, and it flattens to the tokens before the end. -/
theorem isShaped_of_parse {ts : List Token} {p : Program} (h : parse ts = .ok p) :
    p.IsShaped ∧ List.Forall₂ Token.Agrees (beforeEnd ts) p.flatten := by
  obtain ⟨hne, hstmts, hflat⟩ := parse_eq_ok_iff_flatten.mp h
  refine ⟨⟨hne, hstmts⟩, ?_⟩
  rw [← hflat, List.forall₂_map_right_iff, List.forall₂_same]
  exact fun t _ => t.agrees_content

/-! ## Chains -/

namespace Expr

/-- Operands with operators between them, grouped to the left. -/
def chain (first : Expr) (rest : List (Kind × Expr)) : Expr :=
  rest.foldl (fun left r => binary r.1 left r.2) first

/-- The operators between the operands are of one level, and no operand is of that level or above
it: all are additive and no operand is a sum, or all are multiplicative and no operand is binary. -/
def OneLevel (first : Expr) (rest : List (Kind × Expr)) : Prop :=
  (¬ first.isSum ∧ ∀ r ∈ rest, r.1.isAdditive ∧ ¬ r.2.isSum) ∨
  (¬ first.isBinary ∧ ∀ r ∈ rest, r.1.isMultiplicative ∧ ¬ r.2.isBinary)

variable {first : Expr} {rest : List (Kind × Expr)}

theorem chain_cons (r : Kind × Expr) :
    first.chain (r :: rest) = (binary r.1 first r.2).chain rest := rfl

/-- A chain flattens to its operands with its operators between them. -/
theorem flatten_chain (first : Expr) (rest : List (Kind × Expr)) :
    (first.chain rest).flatten =
      first.flatten ++ rest.flatMap fun r => r.1.fixed :: r.2.flatten := by
  induction rest generalizing first with
  | nil => exact (List.append_nil _).symm
  | cons r rest ih =>
    rw [chain_cons, ih, flatten, List.flatMap_cons, List.append_assoc, List.cons_append]

theorem isComplete_chain (hfirst : first.IsComplete)
    (hrest : ∀ r ∈ rest, r.1.isOperator ∧ r.2.IsComplete) : (first.chain rest).IsComplete := by
  induction rest generalizing first with
  | nil => exact hfirst
  | cons r rest ih =>
    obtain ⟨⟨hop, hr⟩, hrest⟩ := List.forall_mem_cons.mp hrest
    exact ih ⟨hop, hfirst, hr⟩ hrest

/-- A chain of sums is shaped. What stands before an operator may be a sum as well, namely that of
the operators before. -/
theorem isShaped_chain_sum (hfirst : first.IsShaped)
    (hrest : ∀ r ∈ rest, r.1.isAdditive ∧ ¬ r.2.isSum ∧ r.2.IsShaped) :
    (first.chain rest).IsShaped := by
  induction rest generalizing first with
  | nil => exact hfirst
  | cons r rest ih =>
    obtain ⟨⟨hop, hsum, hr⟩, hrest⟩ := List.forall_mem_cons.mp hrest
    have hmul : ¬ r.1.isMultiplicative := by simp [Kind.isMultiplicative_eq_false hop]
    exact ih ⟨hfirst, hr, fun _ => hsum, fun h => absurd h hmul⟩ hrest

/-- A chain of products is shaped. What stands before an operator is no sum. -/
theorem isShaped_chain_product (hfirst : first.IsShaped) (hsum : ¬ first.isSum)
    (hrest : ∀ r ∈ rest, r.1.isMultiplicative ∧ ¬ r.2.isBinary ∧ r.2.IsShaped) :
    (first.chain rest).IsShaped := by
  induction rest generalizing first with
  | nil => exact hfirst
  | cons r rest ih =>
    obtain ⟨⟨hop, hbinary, hr⟩, hrest⟩ := List.forall_mem_cons.mp hrest
    have hadd : ¬ r.1.isAdditive := fun h => by
      rw [Kind.isMultiplicative_eq_false h] at hop
      cases hop
    exact ih ⟨hfirst, hr, fun h => absurd h hadd, fun _ => ⟨hsum, hbinary⟩⟩ hadd hrest

theorem not_isSum_of_not_isBinary {e : Expr} (h : ¬ e.isBinary) : ¬ e.isSum := by
  intro hsum
  cases e <;> first | exact h rfl | cases hsum

theorem OneLevel.isOperator (h : OneLevel first rest) : ∀ r ∈ rest, r.1.isOperator := by
  intro r hr
  rcases h with ⟨-, h⟩ | ⟨-, h⟩
  · simp [Kind.isOperator, (h r hr).1]
  · simp [Kind.isOperator, (h r hr).1]

theorem OneLevel.isShaped_chain (h : OneLevel first rest) (hfirst : first.IsShaped)
    (hrest : ∀ r ∈ rest, r.2.IsShaped) : (first.chain rest).IsShaped := by
  rcases h with ⟨-, h⟩ | ⟨hbinary, h⟩
  · exact isShaped_chain_sum hfirst fun r hr => ⟨(h r hr).1, (h r hr).2, hrest r hr⟩
  · exact isShaped_chain_product hfirst (not_isSum_of_not_isBinary hbinary)
      fun r hr => ⟨(h r hr).1, (h r hr).2, hrest r hr⟩

end Expr

/-- **Parsing inverts unparsing.** Tokens that are spelled as a shaped program flattens parse as
that program, wherever they stand and whether or not the end of the input follows. What tokens parse
as is shaped and flattens to the tokens before the end. In particular, operands with operators of
one level between them parse as a tree that leans to the left, however many they are. -/
theorem parse_inverts_flatten :
    (∀ (p : Program) (ts rest : List Token), p.IsShaped → ts.map Token.spelling = p.flatten →
      Parser.atEnd rest → parse (ts ++ rest) = .ok p) ∧
    (∀ (ts : List Token) (p : Program), parse ts = .ok p →
      p.IsShaped ∧ List.Forall₂ Token.Agrees (beforeEnd ts) p.flatten) ∧
    ∀ (first : Expr) (rest : List (Kind × Expr)) (ts : List Token), Expr.OneLevel first rest →
      first.IsComplete ∧ first.IsShaped → (∀ r ∈ rest, r.2.IsComplete ∧ r.2.IsShaped) →
      ts.map Token.spelling = first.flatten ++
        (rest.flatMap fun r => r.1.fixed :: r.2.flatten) ++ [Kind.semicolon.fixed] →
      parse ts = .ok [.eval (first.chain rest)] := by
  refine ⟨fun p ts rest h => h.parse_eq_ok, fun ts p => isShaped_of_parse, ?_⟩
  intro first rest ts hlevel hfirst hrest hts
  have hcomplete : (first.chain rest).IsComplete :=
    Expr.isComplete_chain hfirst.1 fun r hr => ⟨hlevel.isOperator r hr, (hrest r hr).1⟩
  have hshaped := hlevel.isShaped_chain hfirst.2 fun r hr => (hrest r hr).2
  have hprogram : Program.IsShaped [.eval (first.chain rest)] := by
    simp [Program.IsShaped, Stmt.IsComplete, Stmt.IsShaped, Stmt.isKnown, Stmt.exprs, hcomplete,
      hshaped]
  have hflat : ts.map Token.spelling = Program.flatten [.eval (first.chain rest)] := by
    rw [hts, ← Expr.flatten_chain]
    simp [Program.flatten, Stmt.flatten]
  have hend : Parser.atEnd [] := rfl
  have hparse := hprogram.parse_eq_ok hflat hend
  rwa [List.append_nil] at hparse

/-- The tokens of `a - b - (c * 2);`, all at one position. -/
def differences : List Token :=
  ([(.identifier, "a"), (.minus, "-"), (.identifier, "b"), (.minus, "-"), (.lparen, "("),
    (.identifier, "c"), (.star, "*"), (.number, "2"), (.rparen, ")"), (.semicolon, ";")] :
    List (Kind × Bytes)).map fun l => ⟨l.1, l.2, ⟨7, 7⟩⟩

/-- The chain is read from the left, and the end of the input may stand behind it. -/
theorem parse_inverts_flatten_differences :
    parse differences = .ok [.eval (.binary .minus (.binary .minus (.name "a") (.name "b"))
      (.group (.binary .star (.name "c") (.number "2"))))] ∧
    parse (differences ++ [⟨.eof, [], ⟨1, 1⟩⟩]) = parse differences := by
  have hproduct : (Expr.binary .star (.name "c") (.number "2")).IsComplete ∧
      (Expr.binary .star (.name "c") (.number "2")).IsShaped :=
    ⟨⟨rfl, trivial, trivial⟩, trivial, trivial, by decide, by decide⟩
  have hchain := parse_inverts_flatten.2.2 (.name "a")
    [(.minus, .name "b"), (.minus, .group (.binary .star (.name "c") (.number "2")))] differences
    (.inl ⟨by decide, by decide⟩) ⟨trivial, trivial⟩
    (List.forall_mem_cons.mpr ⟨⟨trivial, trivial⟩, List.forall_mem_singleton.mpr hproduct⟩) rfl
  have hshaped := (parse_inverts_flatten.2.1 _ _ hchain).1
  have hend := parse_inverts_flatten.1 _ differences [⟨.eof, [], ⟨1, 1⟩⟩] hshaped rfl rfl
  exact ⟨hchain, hend.trans hchain.symm⟩

end Arrowlet
