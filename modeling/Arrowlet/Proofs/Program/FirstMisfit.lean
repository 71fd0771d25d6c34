import Arrowlet.Proofs.Program.Expectation
import Arrowlet.Proofs.Program.Lookahead
import Mathlib.Control.Monad.Basic

/-!
# The first token that does not fit

`parse_reports_first_misfit`: where parsing fails, the tokens before the reported one begin a list
that parses, with the reported token they do not, and with a token of any expected kind in its place
they do.

The statements before the first one that cannot be read are derived (`exists_statement_error`), so
the report is that of a single statement. What it expects begins a statement there
(`statement_failsWithin`). What it finds cannot follow, because the statement is refused before that
token whatever comes after it (`statement_looksAhead`).
-/

namespace Arrowlet

open Grammar

namespace Parser

section
variable {ts : List Token}

/-! ## Statements before the one that fails -/

/-- The tokens derive statements, or there are none. -/
def AreStatements (ts : List Token) : Prop := ts = [] ∨ ∃ p, Grammar.Program ts p

/-- Where statements cannot be read, the first one that cannot comes after others that can. If there
are others, then more tokens follow them. -/
theorem exists_statement_error {m : Mismatch} (h : statements ts = .error m) :
    ∃ us vs, ts = us ++ vs ∧ AreStatements us ∧ (us ≠ [] → atEnd vs = false) ∧
      outcome (statement vs) = .error m := by
  induction hn : ts.length using Nat.strongRecOn generalizing ts with
  | ind n ih =>
    subst hn
    rw [statements_eq] at h
    cases hs : outcome (statement ts) with
    | error m' =>
      rw [hs] at h
      cases h
      exact ⟨[], ts, rfl, .inl rfl, fun hne => absurd rfl hne, hs⟩
    | ok reading =>
      obtain ⟨s, rest⟩ := reading
      obtain ⟨us, rfl, hus⟩ := statement_derived hs
      rw [hs] at h
      replace h : (if atEnd rest then .ok [s]
        else statements rest >>= fun others => .ok (s :: others)) = .error m := h
      split at h
      · cases h
      · next hend =>
        have hrest : statements rest = .error m := by
          cases hr : statements rest with
          | error m' =>
            rw [hr] at h
            exact h
          | ok others =>
            rw [hr] at h
            cases h
        obtain ⟨vs, ws, rfl, hvs, hmore, hws⟩ := ih _ (length_lt_of_outcome hs) hrest rfl
        refine ⟨us ++ vs, ws, by rw [List.append_assoc], .inr ?_, fun _ => ?_, hws⟩
        · rcases hvs with rfl | ⟨p, hp⟩
          · exact ⟨[s], by rw [List.append_nil]; exact .single hus⟩
          · exact ⟨s :: p, .cons hus hp⟩
        · by_cases hvs : vs = []
          · subst hvs
            simpa using hend
          · exact hmore hvs

end

end Parser

open Arrowlet.Parser

/-- Statements are read behind derived ones as if they stood alone. -/
theorem Grammar.Program.statements_append {ts rest : List Token} {p : Arrowlet.Program}
    (h : Grammar.Program ts p) (hrest : atEnd rest = false) :
    statements (ts ++ rest) = statements rest >>= fun q => .ok (p ++ q) := by
  induction h with
  | @single ts s hs =>
    rw [statements_eq, hs.outcome_statement]
    exact if_neg (by simp [hrest])
  | @cons ts us s p hs hp ih =>
    rw [statements_eq, List.append_assoc, hs.outcome_statement]
    refine (if_neg (by simp [hp.atEnd_append])).trans ?_
    rw [ih]
    cases statements rest <;> rfl

/-! ## The report of the first misfit -/

/-- The tokens can be continued to a list that parses. -/
def Completable (ts : List Token) : Prop := ∃ us p, parse (ts ++ us) = .ok p

section
variable {ts us vs : List Token} {m : Mismatch}

/-- What begins a program can be continued to a list that parses, and holds no end of the input. -/
theorem Grammar.Begins.completable (h : Begins (fun ts => ∃ p, Grammar.Program ts p) ts) :
    Completable ts ∧ ∀ t ∈ ts, t.kind ≠ .eof := by
  obtain ⟨us, p, hp⟩ := h
  refine ⟨⟨us, p, parse_eq_ok_iff.mpr ?_⟩, fun t ht => hp.kind_ne_eof t (by simp [ht])⟩
  have hwhole := beforeEnd_append hp.kind_ne_eof (rfl : atEnd [])
  rw [List.append_nil] at hwhole
  rwa [hwhole]

/-- Behind statements, what begins a statement begins a program. -/
theorem Grammar.Begins.program (hus : AreStatements us) (h : Begins IsStatement vs) :
    Begins (fun ts => ∃ p, Grammar.Program ts p) (us ++ vs) := by
  refine h.behind us fun ws ⟨s, hs⟩ => .whole ?_
  rcases hus with rfl | ⟨p, hp⟩
  · exact ⟨[s], .single hs⟩
  · exact ⟨p ++ [s], hp.append (.single hs)⟩

/-- Behind statements, nothing that cannot be read as a statement parses. -/
theorem parse_ne_ok (hus : AreStatements us) (hend : us ≠ [] → atEnd vs = false)
    (h : outcome (statement vs) = .error m) (p : Program) : parse (us ++ vs) ≠ .ok p := by
  have hvs : statements vs = .error m := by
    rw [statements_eq, h]
    rfl
  have hstatements : statements (us ++ vs) = .error m := by
    rcases hus with rfl | ⟨q, hq⟩
    · exact hvs
    · rw [hq.statements_append (hend hq.ne_nil), hvs]
      rfl
  simp [parse, hstatements]

/-- Where statements cannot be read, the tokens before the mismatch begin a program with every
expected token and cannot be completed with the one that is found. -/
theorem exists_misfit (h : statements ts = .error m) :
    ∃ us, ts = us ++ m.rest ∧ m.expected ≠ [] ∧ nextKind m.rest ∉ m.expected ∧
      (∀ t : Token, t.kind ∈ m.expected →
        Begins (fun ts => ∃ p, Grammar.Program ts p) (us ++ [t])) ∧
      ∀ t rest, m.rest = t :: rest → ¬ Completable (us ++ [t]) := by
  obtain ⟨us, vs, rfl, hus, hend, hvs⟩ := exists_statement_error h
  obtain ⟨ws, hws, hne, hnext, hbegins⟩ := statement_failsWithin vs m hvs
  refine ⟨us ++ ws, by rw [hws, List.append_assoc], hne, hnext, fun t ht => ?_, ?_⟩
  · rw [List.append_assoc]
    exact (hbegins t ht).program hus
  · rintro t rest hrest ⟨xs, p, hp⟩
    -- The statement fails before the same token whatever follows it.
    obtain ⟨ws', hws', hread⟩ := statement_looksAhead vs t rest (by simp only [hvs]; exact hrest)
    rw [hrest, hws'] at hws
    cases List.append_cancel_right hws
    simp only [hvs, withRest] at hread
    refine parse_ne_ok hus (fun hne => ?_) (hread xs) p (by simpa using hp)
    rw [← hend hne, hws']
    cases ws <;> rfl

end

/-- **Parsing reports the first token that does not fit.** Where it fails, there are tokens before
the reported one, no end of the input among them, that can be continued to a list that parses. With
the token itself, which is the next one or the end of the input behind the last one, they cannot;
with any token of an expected kind they can, some kind is expected, and that of the token is not. -/
theorem parse_reports_first_misfit (ts : List Token) (e : ParseError) (h : parse ts = .error e) :
    ∃ k ≤ ts.length,
      (∀ t ∈ ts.take k, t.kind ≠ .eof) ∧ Completable (ts.take k) ∧
      (k < ts.length → ts[k]? = some e.found ∧ ¬ Completable (ts.take (k + 1))) ∧
      (k = ts.length → e.found.kind = .eof ∧ e.found.lexeme = [] ∧
        e.found.pos = (ts.getLast?.map Token.pos).getD ⟨1, 1⟩) ∧
      e.expected ≠ [] ∧ e.found.kind ∉ e.expected ∧
      ∀ t : Token, t.kind ∈ e.expected → Completable (ts.take k ++ [t]) := by
  rw [parse] at h
  split at h
  · cases h
  next m hm =>
  cases h
  obtain ⟨us, hts, hne, hnext, hbegins, hmisfit⟩ := exists_misfit hm
  have htake : ts.take us.length = us := by rw [hts, List.take_left]
  have hus : Completable us ∧ ∀ t ∈ us, t.kind ≠ .eof := by
    obtain ⟨kind, hkind⟩ := List.exists_mem_of_ne_nil _ hne
    exact (hbegins (sample kind) hkind).of_append.completable
  refine ⟨us.length, by simp [hts], ?_⟩
  rw [htake]
  refine ⟨hus.2, hus.1, ?_, ?_, hne, ?_, fun t ht => (hbegins t ht).completable.1⟩
  · intro hlt
    cases hrest : m.rest with
    | nil => simp [hts, hrest] at hlt
    | cons t rest =>
      have htake' : ts.take (us.length + 1) = us ++ [t] := by
        simp [hts, hrest, List.take_length_add_append]
      refine ⟨by simp [hts, hrest], ?_⟩
      rw [htake']
      exact hmisfit t rest hrest
  · intro hlen
    have hrest : m.rest = [] := by simpa [hts] using hlen
    simp [hrest, endToken, Position.start]
  · cases hrest : m.rest with
    | nil => simpa [hrest, nextKind, endToken] using hnext
    | cons t rest => simpa [hrest, nextKind] using hnext

/-- The tokens of `DEF x <- ( 1 ;`, where a parenthesis is missing. -/
def unclosedGroup : List Token :=
  [⟨.define, "DEF", ⟨1, 1⟩⟩, ⟨.identifier, "x", ⟨1, 5⟩⟩, ⟨.arrow, "<-", ⟨1, 7⟩⟩,
    ⟨.lparen, "(", ⟨1, 10⟩⟩, ⟨.number, "1", ⟨1, 12⟩⟩, ⟨.semicolon, ";", ⟨1, 14⟩⟩,
    ⟨.eof, [], ⟨1, 15⟩⟩]

/-- The semicolon is the first token that does not fit, and a parenthesis in its place would. -/
theorem parse_reports_first_misfit_group :
    parse unclosedGroup = .error ⟨[.rparen], ⟨.semicolon, ";", ⟨1, 14⟩⟩⟩ ∧
    ∃ k < unclosedGroup.length, unclosedGroup[k]? = some ⟨.semicolon, ";", ⟨1, 14⟩⟩ ∧
      Completable (unclosedGroup.take k) ∧ ¬ Completable (unclosedGroup.take (k + 1)) ∧
      Completable (unclosedGroup.take k ++ [⟨.rparen, ")", ⟨1, 14⟩⟩]) := by
  have herror : parse unclosedGroup = .error ⟨[.rparen], ⟨.semicolon, ";", ⟨1, 14⟩⟩⟩ := by
    decide +kernel
  obtain ⟨k, hk, -, hbefore, hfound, hend, -, -, hexpected⟩ :=
    parse_reports_first_misfit unclosedGroup _ herror
  have hlt : k < unclosedGroup.length := Nat.lt_of_le_of_ne hk fun h => by cases (hend h).1
  exact ⟨herror, k, hlt, (hfound hlt).1, hbefore, (hfound hlt).2, hexpected _ (.head _)⟩

end Arrowlet
