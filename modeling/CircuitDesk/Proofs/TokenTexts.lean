import CircuitDesk.Proofs.Neighbours

namespace CircuitDesk.Token

open Bytes (AllDigits Quotable newline)
open Tile (Cut Fits)

def Kind.Spells : Kind → Bytes → Prop
  | .endOfInput, s => s = []
  | .float, s => IsFloat s
  | .integer, s => IsNumeral [45, 43] s
  | .string, s => ∃ inner, Quotable inner ∧ s = quoteText inner
  | .repetition, s => ∃ ds, ds ≠ [] ∧ AllDigits ds ∧ s = 120 :: ds
  | .keyword, s => s ∈ keywords
  | kind, s => ⟨some kind, s⟩ ∈ fixedTiles

theorem spells_of_literal {kind : Kind} {words : List Bytes} {s rest : Bytes}
    (hwords : ∀ w ∈ words, ⟨some kind, w⟩ ∈ fixedTiles) (h : literal words (s ++ rest) = some s.length) :
    ⟨some kind, s⟩ ∈ fixedTiles := by
  have htext := literal_taken h
  rw [List.take_left] at htext
  exact hwords s htext

theorem spells_of_fits {kind : Kind} {s rest : Bytes} (h : Fits ⟨some kind, s⟩ rest) : kind.Spells s := by
  obtain ⟨c, hc, hclass, hlen⟩ := firstLexeme_class h.2
  have aligned {u v : Bytes} (hs : s ++ rest = u ++ v) (hlength : s.length = u.length) : s = u :=
    (List.append_inj hs hlength).1
  simp only [lexemes, List.mem_cons, List.not_mem_nil, or_false] at hc
  rcases hc with rfl | rfl | rfl | rfl | rfl | rfl | rfl | rfl | rfl | rfl | rfl <;> cases hclass
  · exact spells_of_literal (by decide) hlen
  · obtain ⟨u, v, hs, hlength, hfloat, -⟩ := floatLexeme_taken hlen
    rwa [← aligned hs hlength] at hfloat
  · obtain ⟨u, v, hs, hlength, hnumeral, -⟩ := integerLexeme_taken hlen
    rwa [← aligned hs hlength] at hnumeral
  · obtain ⟨inner, hinner, htext⟩ := quoteText_of_stringLexeme hlen
    rw [List.take_left] at htext
    exact ⟨inner, hinner, htext⟩
  · exact spells_of_literal (by decide) hlen
  · exact spells_of_literal (by decide) hlen
  · obtain ⟨ds, v, hs, hlength, hne, hds, -⟩ := repetitionLexeme_taken hlen
    exact ⟨ds, hne, hds, aligned hs (by simpa using hlength)⟩
  · obtain ⟨u, v, hs, hlength, hword, -⟩ := keywordLexeme_taken hlen
    rwa [← aligned hs hlength] at hword
  · exact spells_of_literal (by decide) hlen
  · exact spells_of_literal (by decide) hlen

theorem fits_of_mem {ts : List Tile} {rest : Bytes} (h : Cut ts rest) {t : Tile} (ht : t ∈ ts) :
    ∃ rest', t.Fits rest' := by
  induction ts with
  | nil => cases ht
  | cons u ts ih =>
    rcases List.mem_cons.mp ht with rfl | ht
    · exact ⟨_, h.1⟩
    · exact ih h.2 ht

theorem spells_of_lex {file text : Bytes} {ts : List Token} (h : lex file text = .ok ts) :
    ∀ t ∈ ts, t.kind.Spells t.text := by
  obtain ⟨-, rfl⟩ := lex_eq_ok.mp h
  intro t ht
  rcases List.mem_append.mp ht with ht | ht
  · obtain ⟨u, hu, hkind, htext⟩ := place_mem ht
    obtain ⟨rest, hfits⟩ := fits_of_mem (cut_tiles text) hu
    obtain ⟨kind, s⟩ := u
    subst hkind htext
    exact spells_of_fits hfits
  · rw [List.mem_singleton.mp ht]
    rfl

theorem fits_of_spells {kind : Kind} {s : Bytes} (h : kind.Spells s) (hkind : kind ≠ .endOfInput) :
    Fits ⟨some kind, s⟩ [] := by
  cases kind with
  | endOfInput => exact absurd rfl hkind
  | float => exact fits_float h rfl
  | integer => exact fits_integer h (Bytes.stopsAt_nil _)
  | string =>
    obtain ⟨inner, hinner, rfl⟩ := h
    exact fits_string hinner []
  | repetition =>
    obtain ⟨ds, hne, hds, rfl⟩ := h
    exact fits_repetition hne hds rfl
  | keyword =>
    have hearlier : ∀ w ∈ keywords, (lexemes.take 8).findSome? (fun c => (c.2 (w ++ [])).map (c.1, ·)) = none := by
      decide +kernel
    exact fits_keyword h (hearlier s h) rfl
  | newline | opener | header | arrow | punctuation => exact fits_fixed h []

theorem Kind.Spells.unique {kind kind' : Kind} {s : Bytes} (h : kind.Spells s) (h' : kind'.Spells s) :
    kind = kind' := by
  have empty {kind : Kind} (hnil : kind.Spells []) : kind = .endOfInput := by
    by_cases hkind : kind = .endOfInput
    · exact hkind
    · exact absurd rfl (fits_of_spells hnil hkind).1
  by_cases hs : s = []
  · subst hs
    rw [empty h, empty h']
  · have nonempty {kind : Kind} (h : kind.Spells s) : Fits ⟨some kind, s⟩ [] :=
      fits_of_spells h fun hkind => hs (by rwa [hkind] at h)
    have hfirst := (nonempty h).2.symm.trans (nonempty h').2
    exact Option.some.inj (congrArg Prod.fst (Option.some.inj hfirst))

end CircuitDesk.Token
