import CircuitDesk.Proofs.Lexemes

namespace CircuitDesk.Token

open Bytes (isDigit newline quote)
open Tile (Fits Cut flat)

def Taken (s : Bytes) (n : Nat) : Prop := 0 < n ∧ n ≤ s.length

theorem digitRun_le (s : Bytes) : digitRun s ≤ s.length := (List.takeWhile_prefix _).length_le

theorem digitRun_drop_le (s : Bytes) (k : Nat) : digitRun (s.drop k) ≤ s.length - k := by
  simpa using digitRun_le (s.drop k)

theorem taken_blankRun {s : Bytes} {n : Nat} (h : blankRun s = some n) : Taken s n := by
  simp only [blankRun] at h
  split at h
  · cases h
  · rename_i hne
    cases h
    exact ⟨Nat.pos_of_ne_zero hne, (List.takeWhile_prefix _).length_le⟩

theorem taken_literal {words : List Bytes} (hwords : [] ∉ words) {s : Bytes} {n : Nat} (h : literal words s = some n) :
    Taken s n := by
  obtain ⟨word, hfind, rfl⟩ := Option.map_eq_some_iff.mp h
  have hfits : word.isPrefixOf s := by simpa using List.find?_some hfind
  have hprefix : word <+: s := List.isPrefixOf_iff_prefix.mp hfits
  refine ⟨List.length_pos_iff.mpr ?_, hprefix.length_le⟩
  rintro rfl
  exact hwords (List.mem_of_find?_eq_some hfind)

theorem exponent_le {s : Bytes} {n : Nat} (h : exponent s = some n) : n ≤ s.length := by
  cases s with
  | nil => cases h
  | cons b r =>
    simp only [exponent] at h
    split at h
    · rename_i hdigits
      cases h
      have hrun := digitRun_drop_le r (optional [45] r)
      rw [hdigits.2.1] at hrun
      rw [List.length_cons]
      omega
    · cases h

theorem taken_floatLexeme {s : Bytes} {n : Nat} (h : floatLexeme s = some n) : Taken s n := by
  simp only [floatLexeme] at h
  split at h
  · cases h
  · rename_i hwhole
    obtain ⟨e, he, rfl⟩ := Option.map_eq_some_iff.mp h
    have hle := exponent_le he
    -- an exponent is read there, so the parts in front of it end within the text
    have hrest : s.drop (optional [45] s + digitRun (s.drop (optional [45] s)) +
        fraction (s.drop (optional [45] s + digitRun (s.drop (optional [45] s))))) ≠ [] := by
      intro hnil
      rw [hnil] at he
      cases he
    have hlt := List.length_pos_iff.mpr hrest
    rw [List.length_drop] at hle hlt
    constructor <;> omega

theorem taken_integerLexeme {s : Bytes} {n : Nat} (h : integerLexeme s = some n) : Taken s n := by
  simp only [integerLexeme] at h
  split at h
  · cases h
  · rename_i hwhole
    cases h
    have hrun := digitRun_drop_le s (optional [45, 43] s)
    constructor <;> omega

theorem taken_stringLexeme {s : Bytes} {n : Nat} (h : stringLexeme s = some n) : Taken s n := by
  cases s with
  | nil => cases h
  | cons b r =>
    simp only [stringLexeme] at h
    split at h
    · rename_i hquote
      cases h
      have hrest : r.drop (r.takeWhile fun c => c ≠ quote && c ≠ newline).length ≠ [] := by
        intro hnil
        rw [hnil] at hquote
        cases hquote.2
      have hlt := List.length_pos_iff.mpr hrest
      rw [List.length_drop] at hlt
      rw [Taken, List.length_cons]
      constructor <;> omega
    · cases h

theorem taken_repetitionLexeme {s : Bytes} {n : Nat} (h : repetitionLexeme s = some n) : Taken s n := by
  cases s with
  | nil => cases h
  | cons b r =>
    simp only [repetitionLexeme] at h
    split at h
    · cases h
      have hrun := digitRun_le r
      rw [Taken, List.length_cons]
      constructor <;> omega
    · cases h

theorem taken_keywordLexeme {s : Bytes} {n : Nat} (h : keywordLexeme s = some n) : Taken s n := by
  simp only [keywordLexeme] at h
  split at h
  · rename_i hany
    cases h
    refine ⟨List.length_pos_iff.mpr fun hnil => ?_, (List.takeWhile_prefix _).length_le⟩
    rw [hnil] at hany
    revert hany
    decide
  · cases h

theorem taken_of_lexeme : ∀ c ∈ lexemes, ∀ {s n}, c.2 s = some n → Taken s n := by
  simp only [lexemes, List.forall_mem_cons]
  exact ⟨taken_blankRun, taken_literal (by decide), taken_floatLexeme, taken_integerLexeme, taken_stringLexeme,
    taken_literal (by decide), taken_literal (by decide), taken_repetitionLexeme, taken_keywordLexeme,
    taken_literal (by decide), taken_literal (by decide), by simp⟩

theorem taken_firstLexeme {s : Bytes} {kind : Option Kind} {n : Nat} (h : firstLexeme s = some (kind, n)) :
    Taken s n := by
  obtain ⟨c, hc, -, hlen⟩ := firstLexeme_class h
  exact taken_of_lexeme c hc hlen

theorem flat_tiles (s : Bytes) : flat (tiles s).1 ++ (tiles s).2 = s := by
  induction s using tiles.induct with
  | case1 => simp [tiles]
  | case2 b rest hnone => simp [tiles, hnone]
  | case3 b rest kind n hsome ih =>
    obtain ⟨hpos, hle⟩ := taken_firstLexeme hsome
    obtain ⟨m, rfl⟩ : ∃ m, n = m + 1 := ⟨n - 1, by omega⟩
    rw [Nat.add_sub_cancel] at ih
    rw [tiles, hsome]
    simp only [Nat.add_sub_cancel, flat_cons, List.append_assoc, ih, List.take_succ_cons, List.cons_append,
      List.take_append_drop]

theorem cut_tiles (s : Bytes) : Cut (tiles s).1 (tiles s).2 := by
  induction s using tiles.induct with
  | case1 => simp [tiles, Cut]
  | case2 b rest hnone => simp [tiles, hnone, Cut]
  | case3 b rest kind n hsome ih =>
    obtain ⟨hpos, hle⟩ := taken_firstLexeme hsome
    obtain ⟨m, rfl⟩ : ∃ m, n = m + 1 := ⟨n - 1, by omega⟩
    rw [Nat.add_sub_cancel] at ih
    rw [tiles, hsome]
    simp only [Nat.add_sub_cancel]
    refine ⟨⟨by simp, ?_⟩, ih⟩
    -- the class fits in front of all that is behind the tile, which is the later tiles and the rest again
    have hlength : ((b :: rest).take (m + 1)).length = m + 1 := by
      rw [List.length_take]
      omega
    rw [flat_tiles, hlength]
    simpa only [List.take_succ_cons, List.cons_append, List.take_append_drop] using hsome

theorem firstLexeme_rest {s : Bytes} (h : (tiles s).2 ≠ []) : firstLexeme (tiles s).2 = none := by
  induction s using tiles.induct with
  | case1 => exact absurd (by simp [tiles]) h
  | case2 b rest hnone => simp [tiles, hnone]
  | case3 b rest kind n hsome ih =>
    rw [tiles, hsome] at h ⊢
    exact ih h

theorem tile_ne_nil {ts : List Tile} {rest : Bytes} (h : Cut ts rest) : ∀ t ∈ ts, t.text ≠ [] := by
  induction ts with
  | nil => simp
  | cons t ts ih =>
    obtain ⟨⟨hne, -⟩, hcut⟩ := h
    exact List.forall_mem_cons.mpr ⟨hne, ih hcut⟩

end CircuitDesk.Token
