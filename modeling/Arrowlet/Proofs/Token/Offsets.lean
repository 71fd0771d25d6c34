import Arrowlet.Proofs.Position.Offset
import Arrowlet.Proofs.Token.Faults

/-!
# Tokens and the characters of a text

Each token of a text has an offset: its lexeme is spelled by the characters from there on, and its
position is that of the offset. The lexemes do not overlap, and the characters between them are
blanks. `Placement` collects these facts for the characters that have been read.

Reading blanks and reading a lexeme keep them (`Placement.blanks`, `Placement.lexeme`), and so does
reading a piece (`Placement.piece`). They hold for the whole text when its layout has been taken off
(`Placement.layout`). `tokens_stand_at_offsets` adds that positions come in the order of the tokens.
-/

namespace Arrowlet

open Bytes Lexeme

/-! ## Blank characters -/

/-- The characters that stand between tokens. -/
def Lexeme.blanks : List Char := [' ', '\t', '\r', '\n']

/-- A character is blank exactly if the first byte of its encoding is. -/
theorem Lexeme.mem_blanks_iff {c : Char} :
    c ∈ blanks ↔ ∃ b ∈ (String.utf8EncodeChar c).head?, isBlank b := by
  constructor
  · intro h
    simp only [blanks, List.mem_cons, List.not_mem_nil, or_false] at h
    rcases h with rfl | rfl | rfl | rfl <;> exact ⟨_, rfl, by decide⟩
  · rintro ⟨b, hb, hblank⟩
    obtain ⟨rest, heq⟩ := List.head?_eq_some_iff.mp hb
    rw [eq_ofUInt8_of_encode heq (lt_of_isBlank hblank)]
    simp only [isBlank, Bool.or_eq_true, decide_eq_true_eq] at hblank
    rcases hblank with ((rfl | rfl) | rfl) | rfl <;> decide

/-- Blank bytes are blank characters. -/
theorem Lexeme.exists_blanks {w : Bytes} (h : ∀ b ∈ w, isBlank b) :
    ∃ cs, w = ofChars cs ∧ ∀ c ∈ cs, c ∈ blanks := by
  obtain ⟨cs, rfl⟩ := isEncoded_of_ascii fun b hb => lt_of_isBlank (h b hb)
  refine ⟨cs, rfl, fun c hc => mem_blanks_iff.mpr ?_⟩
  obtain ⟨b, rest, heq, -⟩ := exists_encode_eq_cons c
  exact ⟨b, by rw [heq]; rfl, h b (List.mem_flatMap.mpr ⟨c, hc, by rw [heq]; exact .head _⟩)⟩

/-! ## Tokens in characters -/

/-- A token that is not the end of the input stands at an offset in characters. -/
structure Token.StandsAt (t : Token) (cs : List Char) (offset : Nat) : Prop where
  kind : t.kind ≠ .eof
  lexeme : t.lexeme = ofChars ((cs.drop offset).take t.lexeme.charCount)
  pos : t.pos = .ofOffset cs offset

/-- Tokens with their offsets in the characters `cs`. -/
structure Placement (cs : List Char) (placed : List (Token × Nat)) : Prop where
  stands : ∀ x ∈ placed, x.1.StandsAt cs x.2
  /-- The offsets increase, and the last one is before the end. -/
  increasing : (placed.map Prod.snd ++ [cs.length]).Pairwise (· < ·)
  /-- A lexeme ends before the next one begins. -/
  apart : placed.Pairwise fun x y => x.2 + x.1.lexeme.charCount ≤ y.2
  /-- A character is blank or belongs to a lexeme. -/
  covered : ∀ i c, cs[i]? = some c →
    c ∈ blanks ∨ ∃ x ∈ placed, x.2 ≤ i ∧ i < x.2 + x.1.lexeme.charCount

section
variable {t : Token} {cs ds : List Char} {offset : Nat} {placed : List (Token × Nat)}

/-- A lexeme ends with the characters or before. -/
theorem Token.StandsAt.end_le (h : t.StandsAt cs offset) (hoffset : offset ≤ cs.length) :
    offset + t.lexeme.charCount ≤ cs.length := by
  have hcount := congrArg charCount h.lexeme
  rw [charCount_ofChars, List.length_take, List.length_drop] at hcount
  omega

/-- A token stays where it is when more characters are read. -/
theorem Token.StandsAt.append (h : t.StandsAt cs offset) (hoffset : offset ≤ cs.length)
    (ds : List Char) : t.StandsAt (cs ++ ds) offset := by
  refine ⟨h.kind, ?_, ?_⟩
  · have hle : t.lexeme.charCount ≤ (cs.drop offset).length := by
      rw [List.length_drop]
      have := h.end_le hoffset
      omega
    rw [List.drop_append_of_le_length hoffset, List.take_append_of_le_length hle]
    exact h.lexeme
  · rw [Position.ofOffset_append hoffset]
    exact h.pos

namespace Placement

theorem offset_lt (h : Placement cs placed) {x : Token × Nat} (hx : x ∈ placed) :
    x.2 < cs.length :=
  (List.pairwise_append.mp h.increasing).2.2 _ (List.mem_map_of_mem hx) _ (.head _)

theorem nil : Placement [] [] := ⟨by simp, by simp, .nil, by simp⟩

/-- Blanks are read. -/
theorem blanks (h : Placement cs placed) (hds : ∀ c ∈ ds, c ∈ Lexeme.blanks) :
    Placement (cs ++ ds) placed where
  stands x hx := (h.stands x hx).append (Nat.le_of_lt (h.offset_lt hx)) ds
  increasing := by
    obtain ⟨hoffsets, -, -⟩ := List.pairwise_append.mp h.increasing
    refine List.pairwise_append.mpr ⟨hoffsets, List.pairwise_singleton _ _, fun o ho n hn => ?_⟩
    obtain ⟨x, hx, rfl⟩ := List.mem_map.mp ho
    have := h.offset_lt hx
    rw [List.mem_singleton.mp hn, List.length_append]
    omega
  apart := h.apart
  covered := by
    intro i c hc
    by_cases hi : i < cs.length
    · rw [List.getElem?_append_left hi] at hc
      exact h.covered i c hc
    · rw [List.getElem?_append_right (by omega)] at hc
      exact .inl (hds c (List.mem_of_getElem? hc))

/-- A lexeme is read. -/
theorem lexeme (h : Placement cs placed) (hkind : t.kind ≠ .eof) (hlexeme : t.lexeme = ofChars ds)
    (hne : ds ≠ []) (hpos : t.pos = .ofOffset cs cs.length) :
    Placement (cs ++ ds) (placed ++ [(t, cs.length)]) := by
  have hcount : t.lexeme.charCount = ds.length := by rw [hlexeme, charCount_ofChars]
  have hlength := List.length_pos_iff.mpr hne
  refine { stands := ?stands, increasing := ?increasing, apart := ?apart, covered := ?covered }
  case stands =>
    refine List.forall_mem_append.mpr
      ⟨fun x hx => ?_, List.forall_mem_singleton.mpr ⟨hkind, ?_, ?_⟩⟩
    · exact (h.stands x hx).append (Nat.le_of_lt (h.offset_lt hx)) ds
    · rw [hcount, List.drop_left, List.take_length, hlexeme]
    · rw [Position.ofOffset_append (Nat.le_refl _)]
      exact hpos
  case increasing =>
    rw [List.map_append, List.pairwise_append]
    refine ⟨h.increasing, List.pairwise_singleton _ _, fun o ho n hn => ?_⟩
    rw [List.mem_singleton.mp hn, List.length_append]
    rcases List.mem_append.mp ho with ho | ho
    · obtain ⟨x, hx, rfl⟩ := List.mem_map.mp ho
      have := h.offset_lt hx
      omega
    · rw [List.mem_singleton.mp ho]
      simp only
      omega
  case apart =>
    refine List.pairwise_append.mpr ⟨h.apart, List.pairwise_singleton _ _, fun x hx y hy => ?_⟩
    rw [List.mem_singleton.mp hy]
    exact (h.stands x hx).end_le (Nat.le_of_lt (h.offset_lt hx))
  case covered =>
    intro i c hc
    by_cases hi : i < cs.length
    · rw [List.getElem?_append_left hi] at hc
      rcases h.covered i c hc with hblank | ⟨x, hx, hin⟩
      · exact .inl hblank
      · exact .inr ⟨x, List.mem_append_left _ hx, hin⟩
    · have hlt := (List.getElem?_eq_some_iff.mp hc).1
      rw [List.length_append] at hlt
      refine .inr ⟨(t, cs.length), List.mem_append_right _ (.head _), by simp only; omega, ?_⟩
      simp only [hcount]
      omega

/-- A piece is read: its blanks, and then its lexeme, which ends with a whole character. -/
theorem piece {p : Piece} {rest : Bytes} (h : Placement cs placed) (hp : p.WellFormed)
    (htext : IsEncoded (p.text ++ rest)) :
    ∃ ds offset, p.text = ofChars ds ∧ rest.IsEncoded ∧
      Placement (cs ++ ds) (placed ++ [(p.token (.ofOffset cs cs.length), offset)]) := by
  obtain ⟨bs, hbs, hblanks⟩ := exists_blanks hp.blank
  obtain ⟨hpiece, hrest⟩ := hp.isEncoded_of_append htext
  rw [Piece.text, hbs, (isEncoded_ofChars bs).append_iff] at hpiece
  obtain ⟨ws, hws⟩ := hpiece
  have hne : ws ≠ [] := by
    rintro rfl
    obtain ⟨b, w, hlexeme, -⟩ := hp.lexeme.exists_head
    rw [hws] at hlexeme
    cases hlexeme
  have hpos : (p.token (.ofOffset cs cs.length)).pos =
      .ofOffset (cs ++ bs) (cs ++ bs).length := by
    rw [Piece.token, hbs, Position.ofOffset_length_after]
  have hplaced := (h.blanks hblanks).lexeme hp.kind_ne_eof hws hne hpos
  rw [List.append_assoc] at hplaced
  refine ⟨bs ++ ws, _, ?_, hrest, hplaced⟩
  rw [Piece.text, hbs, hws, ofChars_append]
  rfl

/-- A layout is read. -/
theorem layout {pieces : List Piece} {last : Bytes} (h : Placement cs placed)
    (hd : Layout.WellFormed ⟨pieces, last⟩) (htext : (Layout.text ⟨pieces, last⟩).IsEncoded) :
    ∃ ds added, Layout.text ⟨pieces, last⟩ = ofChars ds ∧
      Layout.tokensFrom (.ofOffset cs cs.length) pieces last =
        added.map Prod.fst ++ [⟨.eof, [], .ofOffset (cs ++ ds) (cs ++ ds).length⟩] ∧
      Placement (cs ++ ds) (placed ++ added) := by
  induction pieces generalizing cs placed with
  | nil =>
    obtain ⟨ds, rfl, hds⟩ := exists_blanks (Layout.wellFormed_nil_iff.mp hd)
    refine ⟨ds, [], rfl, ?_, ?_⟩
    · rw [Layout.tokensFrom, Position.ofOffset_length_after]
      rfl
    · rw [List.append_nil]
      exact h.blanks hds
  | cons p pieces ih =>
    obtain ⟨hp, -, hpieces⟩ := Layout.wellFormed_cons_iff.mp hd
    rw [Layout.text_cons] at htext
    obtain ⟨ds, offset, hds, hrest, hplaced⟩ := h.piece hp htext
    obtain ⟨es, added, hes, htokens, hplaced⟩ := ih hplaced hpieces hrest
    simp only [List.append_assoc, List.singleton_append] at htokens hplaced
    refine ⟨ds ++ es, _ :: added, ?_, ?_, hplaced⟩
    · rw [Layout.text_cons, hds, hes, ofChars_append]
    · rw [Layout.tokensFrom, hds, Position.ofOffset_length_after, htokens]
      rfl

/-- Positions come in the order of the tokens, the end of the input last. -/
theorem pairwise_before (h : Placement cs placed) :
    (placed.map Prod.fst ++ [(⟨.eof, [], .ofOffset cs cs.length⟩ : Token)]).Pairwise
      fun s t => s.pos.Before t.pos := by
  have hpos : (placed.map Prod.fst ++ [⟨.eof, [], .ofOffset cs cs.length⟩] : List Token).map
        Token.pos =
      (placed.map Prod.snd ++ [cs.length]).map (Position.ofOffset cs) := by
    rw [List.map_append, List.map_append, List.map_map, List.map_map]
    exact congrArg (· ++ _) (List.map_congr_left fun x hx => (h.stands x hx).pos)
  rw [← List.pairwise_map, hpos, List.pairwise_map]
  refine h.increasing.imp_of_mem fun {j k} _ hk hlt => Position.ofOffset_before hlt ?_
  rcases List.mem_append.mp hk with hk | hk
  · obtain ⟨x, hx, rfl⟩ := List.mem_map.mp hk
    exact Nat.le_of_lt (h.offset_lt hx)
  · exact Nat.le_of_eq (List.mem_singleton.mp hk)

end Placement

end

/-- The tokens of a text of characters stand at offsets in these, and the end of the input stands
after the last one. -/
theorem exists_placement {cs : List Char} {ts : List Token} (h : lex (ofChars cs) = .ok ts) :
    ∃ placed, ts = placed.map Prod.fst ++ [⟨.eof, [], .ofOffset cs cs.length⟩] ∧
      Placement cs placed := by
  obtain ⟨hsrc, ⟨pieces, last⟩, hd, htext, rfl⟩ := lex_eq_ok_iff.mp h
  rw [← htext] at hsrc
  obtain ⟨ds, placed, hds, htokens, hplaced⟩ := Placement.nil.layout hd hsrc
  obtain rfl : cs = ds := ofChars_inj.mp (htext.symm.trans hds)
  exact ⟨placed, htokens, hplaced⟩

/-- **Tokens stand where their positions say.** The tokens of a text stand at offsets in its
characters, with blanks between them, and the end of the input stands after the last character.
Positions come in the order of the tokens. -/
theorem tokens_stand_at_offsets {src : Bytes} {ts : List Token} (h : lex src = .ok ts) :
    ∃ cs placed, src = ofChars cs ∧
      ts = placed.map Prod.fst ++ [⟨.eof, [], .ofOffset cs cs.length⟩] ∧
      Placement cs placed ∧ ts.Pairwise fun s t => s.pos.Before t.pos := by
  obtain ⟨cs, rfl⟩ := (lex_eq_ok_iff.mp h).1
  obtain ⟨placed, rfl, hplaced⟩ := exists_placement h
  exact ⟨cs, placed, rfl, rfl, hplaced, hplaced.pairwise_before⟩

/-- A character of two bytes takes one column, and so do a carriage return and a tab. -/
theorem tokens_stand_at_offsets_accent :
    lex "\"\u00e9\" \r\n\tx" =
      .ok [⟨.string, "\"\u00e9\"", ⟨1, 1⟩⟩, ⟨.identifier, "x", ⟨2, 2⟩⟩, ⟨.eof, "", ⟨2, 3⟩⟩] ∧
    ∃ cs placed, ("\"\u00e9\" \r\n\tx" : Bytes) = ofChars cs ∧
      [⟨.string, "\"\u00e9\"", ⟨1, 1⟩⟩, ⟨.identifier, "x", ⟨2, 2⟩⟩, ⟨.eof, "", ⟨2, 3⟩⟩] =
        placed.map Prod.fst ++ [⟨.eof, [], .ofOffset cs cs.length⟩] ∧
      Placement cs placed ∧
      List.Pairwise (fun s t : Token => s.pos.Before t.pos)
        [⟨.string, "\"\u00e9\"", ⟨1, 1⟩⟩, ⟨.identifier, "x", ⟨2, 2⟩⟩, ⟨.eof, "", ⟨2, 3⟩⟩] := by
  have hlex : lex "\"\u00e9\" \r\n\tx" =
      .ok [⟨.string, "\"\u00e9\"", ⟨1, 1⟩⟩, ⟨.identifier, "x", ⟨2, 2⟩⟩, ⟨.eof, "", ⟨2, 3⟩⟩] := by
    decide +kernel
  exact ⟨hlex, tokens_stand_at_offsets hlex⟩

end Arrowlet
