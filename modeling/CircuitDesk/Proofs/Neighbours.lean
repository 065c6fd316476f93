import CircuitDesk.Proofs.Tiling

/-!
A lexeme depends on the text behind it only through its first byte. What each class takes is described by its parts
and by that byte, so a lexeme stays what it is when it is followed by the same byte or by one that ends every lexeme.
-/
namespace CircuitDesk.Token

open Bytes (AllDigits StopsAt isDigit newline quote)
open Tile (Fits)

theorem literal_taken {words : List Bytes} {s : Bytes} {n : Nat} (h : literal words s = some n) : s.take n ∈ words := by
  obtain ⟨word, hfind, rfl⟩ := Option.map_eq_some_iff.mp h
  have hfits : word.isPrefixOf s := by simpa using List.find?_some hfind
  rw [← List.prefix_iff_eq_take.mp (List.isPrefixOf_iff_prefix.mp hfits)]
  exact List.mem_of_find?_eq_some hfind

theorem exists_sign (signs s : Bytes) :
    ∃ sign tail, s = sign ++ tail ∧ IsSign signs sign ∧ optional signs s = sign.length := by
  cases s with
  | nil => exact ⟨[], [], rfl, .inl rfl, rfl⟩
  | cons b s =>
    by_cases hb : b ∈ signs
    · exact ⟨[b], s, rfl, .inr ⟨b, hb, rfl⟩, by simp [optional, hb]⟩
    · exact ⟨[], b :: s, rfl, .inl rfl, by simp [optional, hb]⟩

theorem exists_digits (s : Bytes) :
    ∃ ds tail, s = ds ++ tail ∧ AllDigits ds ∧ StopsAt isDigit tail ∧ digitRun s = ds.length := by
  refine ⟨s.takeWhile isDigit, s.dropWhile isDigit, List.takeWhile_append_dropWhile.symm,
    List.all_eq_true.mp List.all_takeWhile, fun b hb => ?_, rfl⟩
  have h := List.head?_dropWhile_not isDigit s
  simpa [hb] using h

theorem exists_numeral {signs s : Bytes} (h : digitRun (s.drop (optional signs s)) ≠ 0) :
    ∃ number tail, s = number ++ tail ∧ IsNumeral signs number ∧ StopsAt isDigit tail ∧
      optional signs s + digitRun (s.drop (optional signs s)) = number.length := by
  obtain ⟨sign, s, rfl, hsign, hoptional⟩ := exists_sign signs s
  obtain ⟨ds, tail, rfl, hds, htail, hrun⟩ := exists_digits s
  rw [hoptional, List.drop_left] at h ⊢
  rw [hrun] at h ⊢
  exact ⟨sign ++ ds, tail, by simp, .intro hsign (List.length_pos_iff.mp (Nat.pos_of_ne_zero h)) hds, htail, by simp⟩

theorem integerLexeme_taken {s : Bytes} {n : Nat} (h : integerLexeme s = some n) :
    ∃ text rest, s = text ++ rest ∧ n = text.length ∧ IsNumeral [45, 43] text ∧ StopsAt isDigit rest := by
  simp only [integerLexeme] at h
  split at h
  · cases h
  · next hne =>
    cases h
    obtain ⟨number, tail, hs, hnumber, htail, hlength⟩ := exists_numeral hne
    exact ⟨number, tail, hs, hlength, hnumber, htail⟩

theorem exists_fraction (s : Bytes) :
    ∃ point tail, s = point ++ tail ∧ IsFraction point ∧ fraction s = point.length := by
  cases s with
  | nil => exact ⟨[], [], rfl, .absent, rfl⟩
  | cons b s =>
    by_cases hpoint : b = 46 ∧ digitRun s ≠ 0
    · obtain ⟨rfl, hne⟩ := hpoint
      obtain ⟨ds, tail, rfl, hds, -, hrun⟩ := exists_digits s
      rw [hrun] at hne
      exact ⟨46 :: ds, tail, rfl, .present (List.length_pos_iff.mp (Nat.pos_of_ne_zero hne)) hds,
        by simp [fraction, hrun, hne, Nat.add_comm]⟩
    · exact ⟨[], b :: s, rfl, .absent, if_neg hpoint⟩

theorem exponent_taken {s : Bytes} {n : Nat} (h : exponent s = some n) :
    ∃ power rest, s = power ++ rest ∧ n = power.length ∧ IsExponent power ∧ wordEnds rest := by
  cases s with
  | nil => cases h
  | cons b s =>
    obtain ⟨sign, s, rfl, hsign, hoptional⟩ := exists_sign [45] s
    obtain ⟨ds, tail, rfl, hds, -, hrun⟩ := exists_digits s
    simp only [exponent, hoptional, ← List.drop_drop, List.drop_left, hrun] at h
    split at h
    · next hpower =>
      obtain ⟨rfl, hlength, hends⟩ := hpower
      cases h
      rw [List.drop_left' hlength] at hends
      refine ⟨101 :: (sign ++ ds), tail, by simp, ?_, .intro hsign hds hlength, hends⟩
      rw [List.length_cons, List.length_append, hlength]
      omega
    · cases h

theorem floatLexeme_taken {s : Bytes} {n : Nat} (h : floatLexeme s = some n) :
    ∃ text rest, s = text ++ rest ∧ n = text.length ∧ IsFloat text ∧ wordEnds rest := by
  simp only [floatLexeme] at h
  split at h
  · cases h
  · next hne =>
    obtain ⟨number, s, rfl, hnumber, -, hlength⟩ := exists_numeral hne
    obtain ⟨point, s, rfl, hpoint, hfraction⟩ := exists_fraction s
    obtain ⟨e, he, rfl⟩ := Option.map_eq_some_iff.mp h
    rw [hlength, List.drop_left, hfraction, ← List.drop_drop, List.drop_left, List.drop_left] at he
    obtain ⟨power, rest, rfl, rfl, hpower, hends⟩ := exponent_taken he
    refine ⟨number ++ (point ++ power), rest, by simp, ?_, .intro hnumber hpoint hpower, hends⟩
    rw [hlength, List.drop_left, hfraction]
    simp [Nat.add_assoc]

theorem repetitionLexeme_taken {s : Bytes} {n : Nat} (h : repetitionLexeme s = some n) :
    ∃ ds rest, s = 120 :: ds ++ rest ∧ n = ds.length + 1 ∧ ds ≠ [] ∧ AllDigits ds ∧ wordEnds rest := by
  cases s with
  | nil => cases h
  | cons b s =>
    obtain ⟨ds, tail, rfl, hds, -, hrun⟩ := exists_digits s
    simp only [repetitionLexeme, hrun, List.drop_left] at h
    split at h
    · next hcount =>
      obtain ⟨rfl, hne, hends⟩ := hcount
      cases h
      exact ⟨ds, tail, rfl, Nat.add_comm .., List.length_pos_iff.mp (Nat.pos_of_ne_zero hne), hds, hends⟩
    · cases h

theorem keywordLexeme_taken {s : Bytes} {n : Nat} (h : keywordLexeme s = some n) :
    ∃ word rest, s = word ++ rest ∧ n = word.length ∧ word ∈ keywords ∧ wordEnds rest := by
  simp only [keywordLexeme] at h
  split at h
  · next hany =>
    cases h
    refine ⟨s.takeWhile isWordByte, s.dropWhile isWordByte, List.takeWhile_append_dropWhile.symm, rfl,
      by simpa using hany, ?_⟩
    have hstop := List.head?_dropWhile_not isWordByte s
    cases hrest : s.dropWhile isWordByte with
    | nil => rfl
    | cons b rest =>
      rw [hrest] at hstop
      simpa [wordEnds] using hstop
  · cases h

/-- The bytes that end every lexeme but strings. -/
def spacing : Bytes := [32, 9, 13, newline]

/-- A text that starts like another, or with spacing, or not at all. -/
def GoesOn (rest rest' : Bytes) : Prop := rest'.head? = rest.head? ∨ ∀ b ∈ rest'.head?, b ∈ spacing

theorem GoesOn.stops {p : UInt8 → Bool} {rest rest' : Bytes} (h : GoesOn rest rest') (hp : spacing.all (!p ·))
    (hrest : StopsAt p rest) : StopsAt p rest' := by
  intro b hb
  rcases h with h | h
  · exact hrest b (h ▸ hb)
  · simpa using List.all_eq_true.mp hp b (h b hb)

theorem wordEnds_of_stopsAt {rest : Bytes} (h : StopsAt isWordByte rest) : wordEnds rest := by
  cases rest with
  | nil => rfl
  | cons b rest => simp [wordEnds, h b rfl]

theorem GoesOn.wordEnds {rest rest' : Bytes} (h : GoesOn rest rest') (hrest : wordEnds rest) : wordEnds rest' :=
  wordEnds_of_stopsAt (h.stops (by decide) (stopsAt_of_wordEnds hrest))

theorem firstLexeme_start {s : Bytes} {c : Option Kind × Nat} (h : firstLexeme s = some c) :
    StopsAt (fun b => b = 46 || b = 101) s := by
  intro b hb
  obtain ⟨s, rfl⟩ := List.head?_eq_some_iff.mp hb
  have hpoint : b ≠ 46 := by
    rintro rfl
    cases h
  have hpower : b ≠ 101 := by
    rintro rfl
    cases h
  simp [hpoint, hpower]

theorem header_call {rest : Bytes} (h : StopsAt (· = 58) rest) :
    literal ["Subroutine:", "Shape:", "Controllable:"] (Bytes.ofString "Subroutine" ++ rest) = none := by
  have hstart : (Bytes.ofString "Subroutine:").isPrefixOf (Bytes.ofString "Subroutine" ++ rest) = false := by
    cases rest with
    | nil => rfl
    | cons b s =>
      have hb : ¬ b = 58 := of_decide_eq_false (h b rfl)
      change (58 == b && true) = false
      simp [Ne.symm hb]
  rw [literal, List.find?_cons_of_neg (by simp [hstart])]
  rfl

variable {text rest rest' : Bytes}

theorem fits_of_literal {k : Kind} {words : List Bytes} (hwords : ∀ w ∈ words, ⟨some k, w⟩ ∈ fixedTiles)
    (h : literal words (text ++ rest) = some text.length) (rest' : Bytes) : Fits ⟨some k, text⟩ rest' := by
  have htext := literal_taken h
  rw [List.take_left] at htext
  exact fits_fixed (hwords text htext) rest'

theorem fits_word (hfirst : firstLexeme (text ++ rest) = some (some .keyword, text.length)) (hgo : GoesOn rest rest')
    (h : keywordLexeme (text ++ rest) = some text.length) : Fits ⟨some .keyword, text⟩ rest' := by
  obtain ⟨word, tail, hs, hlength, hword, hends⟩ := keywordLexeme_taken h
  obtain ⟨rfl, rfl⟩ := List.append_inj hs hlength
  refine fits_keyword hword ?_ (hgo.wordEnds hends)
  by_cases hcall : text = Bytes.ofString "Subroutine"
  · subst hcall
    have hcolon : StopsAt (· = 58) rest := by
      intro b hb
      apply decide_eq_false
      rintro rfl
      obtain ⟨s, rfl⟩ := List.head?_eq_some_iff.mp hb
      cases hfirst
    rw [List.findSome?_eq_none_iff]
    simp only [lexemes, List.take_succ_cons, List.take_zero, List.forall_mem_cons]
    refine ⟨rfl, rfl, rfl, rfl, rfl, rfl, ?_, rfl, by simp⟩
    rw [header_call (hgo.stops (by decide) hcolon)]
    rfl
  · simp only [keywords, List.mem_cons, List.not_mem_nil, or_false] at hword
    rcases hword with rfl | rfl | rfl | rfl | rfl | rfl | rfl | rfl | rfl | rfl | rfl | rfl | rfl
    any_goals rfl
    exact absurd rfl hcall

theorem Tile.Fits.goOn {t : Tile} (h : t.Fits rest) (hkind : t.kind ≠ none)
    (hrest : StopsAt (fun b => b = 46 || b = 101) rest) (hgo : GoesOn rest rest') : t.Fits rest' := by
  obtain ⟨c, hc, hclass, hlen⟩ := firstLexeme_class h.2
  obtain ⟨kind, text⟩ := t
  simp only [lexemes, List.mem_cons, List.not_mem_nil, or_false] at hc
  rcases hc with rfl | rfl | rfl | rfl | rfl | rfl | rfl | rfl | rfl | rfl | rfl <;> cases hclass
  · exact absurd rfl hkind
  · exact fits_of_literal (by decide) hlen rest'
  · obtain ⟨text, tail, hs, hlength, hfloat, hends⟩ := floatLexeme_taken hlen
    obtain ⟨rfl, rfl⟩ := List.append_inj hs hlength
    exact fits_float hfloat (hgo.wordEnds hends)
  · obtain ⟨text, tail, hs, hlength, hnumber, hdigit⟩ := integerLexeme_taken hlen
    obtain ⟨rfl, rfl⟩ := List.append_inj hs hlength
    have hnumberEnds : NumberEnds rest := by
      intro b hb
      have h := hrest b hb
      simp only [Bool.or_eq_false_iff] at h ⊢
      exact ⟨⟨hdigit b hb, h.1⟩, h.2⟩
    exact fits_integer hnumber (hgo.stops (by decide) hnumberEnds)
  · obtain ⟨s, hs, htext⟩ := quoteText_of_stringLexeme hlen
    rw [List.take_left] at htext
    obtain rfl : text = quoteText s := htext
    exact fits_string hs rest'
  · exact fits_of_literal (by decide) hlen rest'
  · exact fits_of_literal (by decide) hlen rest'
  · obtain ⟨ds, tail, hs, hlength, hne, hds, hends⟩ := repetitionLexeme_taken hlen
    obtain ⟨rfl, rfl⟩ := List.append_inj hs hlength
    exact fits_repetition hne hds (hgo.wordEnds hends)
  · exact fits_word h.2 hgo hlen
  · exact fits_of_literal (by decide) hlen rest'
  · exact fits_of_literal (by decide) hlen rest'

end CircuitDesk.Token
