import CircuitDesk.Drawing
import CircuitDesk.Proofs.Characters

namespace CircuitDesk.Bytes

variable {a b s t : Bytes} {k m n : Nat}

/-- A piece of a line that has `n` characters wherever it is put. -/
structure Piece (n : Nat) (s : Bytes) : Prop where
  count : charCount s = n
  start : ∀ b ∈ s.head?, isContinuation b = false
  single : newline ∉ s

theorem piece_nil : Piece 0 [] := ⟨by simp [charCount, glyphs], by simp, by simp⟩

theorem Piece.append (ha : Piece m a) (hb : Piece n b) : Piece (m + n) (a ++ b) where
  count := by rw [charCount_append a hb.start, ha.count, hb.count]
  start := by
    cases a with
    | nil => exact hb.start
    | cons x a => exact ha.start
  single := by simp [ha.single, hb.single]

theorem Piece.flatMap {α : Type} {f : α → Bytes} {as : List α} (h : ∀ a ∈ as, Piece n (f a)) :
    Piece (n * as.length) (as.flatMap f) := by
  induction as with
  | nil => exact piece_nil
  | cons a as ih =>
    obtain ⟨ha, has⟩ := List.forall_mem_cons.mp h
    rw [List.flatMap_cons, List.length_cons, Nat.mul_succ, Nat.add_comm]
    exact ha.append (ih has)

theorem Piece.times (h : Piece n s) (k : Nat) : Piece (n * k) (times k s) := by
  have hpiece : Piece (n * (List.replicate k s).length) ((List.replicate k s).flatMap id) :=
    Piece.flatMap fun a ha => List.eq_of_mem_replicate ha ▸ h
  rwa [List.length_replicate, List.flatMap_id] at hpiece

theorem not_continuation_of_char {b : UInt8} {r : Bytes} {c : Char} (h : (firstGlyph b r).1 = .char c) :
    isContinuation b = false := by
  rw [Bool.eq_false_iff]
  intro hcont
  simp only [isContinuation, Bool.and_eq_true, decide_eq_true_eq, UInt8.le_iff_toNat_le, UInt8.reduceToNat] at hcont
  simp only [firstGlyph, UInt8.lt_iff_toNat_lt, UInt8.le_iff_toNat_le, UInt8.reduceToNat, Bool.and_eq_true,
    decide_eq_true_eq] at h
  rw [if_neg (by omega), if_neg (by omega), if_neg (by omega), if_neg (by omega)] at h
  cases h

theorem start_of_chars (h : ∀ g ∈ glyphs s, ∃ c, g = .char c) : ∀ b ∈ s.head?, isContinuation b = false := by
  cases s with
  | nil => simp
  | cons b r =>
    rw [glyphs] at h
    obtain ⟨c, hc⟩ := h _ List.mem_cons_self
    rintro _ ⟨⟩
    exact not_continuation_of_char hc

theorem chars_ofChars (cs : List Char) : ∀ g ∈ glyphs (ofChars cs), ∃ c, g = .char c := by
  rw [glyphs_ofChars]
  intro g hg
  obtain ⟨c, -, rfl⟩ := List.mem_map.mp hg
  exact ⟨c, rfl⟩

theorem piece_ofChars {cs : List Char} (h : '\n' ∉ cs) : Piece cs.length (ofChars cs) :=
  ⟨charCount_ofChars cs, start_of_chars (chars_ofChars cs), fun hmem => h (control_of_ofChars (by decide) hmem)⟩

theorem piece_ofString (s : String) (h : '\n' ∉ s.toList) : Piece s.toList.length (ofString s) := piece_ofChars h

theorem charCount_ofChars_append (cs : List Char) (t : Bytes) :
    charCount (ofChars cs ++ t) = cs.length + charCount t := by
  rw [charCount, glyphs_append_of_chars (chars_ofChars cs), List.length_append, ← charCount, charCount_ofChars]
  rfl

theorem piece_framed (frame : String) (hframe : '\n' ∉ frame.toList) (hne : frame.toList ≠ []) (ht : newline ∉ t) :
    Piece (frame.toList.length + charCount t) (ofString frame ++ t) := by
  have hpiece := piece_ofString frame hframe
  refine ⟨charCount_ofChars_append frame.toList t, ?_, by simp [hpiece.single, ht]⟩
  obtain ⟨c, cs, hcs⟩ := List.exists_cons_of_ne_nil hne
  obtain ⟨b, r, hbytes, -⟩ := firstGlyph_encode c
  have hstart := hpiece.start
  rw [ofString, hcs, List.flatMap_cons, hbytes] at hstart ⊢
  exact hstart

theorem spaces_eq (n : Nat) : spaces n = ofChars (List.replicate n ' ') := by
  induction n with
  | zero => rfl
  | succ n ih =>
    rw [List.replicate_succ, ofChars_cons, ← ih]
    rfl

theorem piece_spaces (n : Nat) : Piece n (spaces n) := by
  have hpiece : Piece _ (ofChars (List.replicate n ' ')) := piece_ofChars (by simp [List.mem_replicate])
  rwa [List.length_replicate, ← spaces_eq] at hpiece

theorem Visible.piece (h : Visible s) : Piece s.length s := by
  induction s with
  | nil => exact piece_nil
  | cons b s ih =>
    obtain ⟨hb, hs⟩ := List.forall_mem_cons.mp h
    have hascii : b < 0x80 := by
      simp only [UInt8.lt_iff_toNat_lt, UInt8.reduceToNat] at hb ⊢
      omega
    have hsingle : newline ≠ b := by
      rintro rfl
      exact absurd hb.1 (by decide)
    refine ⟨?_, ?_, by simp [hsingle, (ih hs).single]⟩
    · rw [charCount, glyphs_ascii hascii, List.length_cons, List.length_cons, ← (ih hs).count]
      rfl
    · rintro _ ⟨⟩
      exact not_continuation_of_ascii hascii

theorem lines_of_single (hs : newline ∉ s) : lines s = [s] := by
  induction s with
  | nil => rfl
  | cons b s ih =>
    obtain ⟨hb, hs⟩ : newline ≠ b ∧ newline ∉ s := by simpa using hs
    have htail : split newline s = [s] := ih hs
    rw [lines, split, if_neg (Ne.symm hb), htail]

theorem lines_append_newline (hs : newline ∉ s) (t : Bytes) : lines (s ++ newline :: t) = s :: lines t := by
  induction s with
  | nil => rw [List.nil_append, lines, split, if_pos rfl, ← lines]
  | cons b s ih =>
    obtain ⟨hb, hs⟩ : newline ≠ b ∧ newline ∉ s := by simpa using hs
    have htail : split newline (s ++ newline :: t) = s :: split newline t := ih hs
    rw [List.cons_append, lines, split, if_neg (Ne.symm hb), htail]
    rfl

theorem lines_of_closed {ls : List Bytes} (h : ∀ l ∈ ls, newline ∉ l) :
    lines (ls.flatMap (· ++ [newline])) = ls ++ [[]] := by
  induction ls with
  | nil => rfl
  | cons l ls ih =>
    obtain ⟨hl, hls⟩ := List.forall_mem_cons.mp h
    rw [List.flatMap_cons, List.append_assoc, List.singleton_append, lines_append_newline hl, ih hls]
    rfl

end CircuitDesk.Bytes

namespace CircuitDesk.Drawing

open Bytes (IsControl charCount newline Piece)

variable {t : Bytes} {m n : Nat}

theorem charCount_cut (t : Bytes) (n : Nat) : charCount (cut t n) = min (charCount t) n := by
  unfold cut
  split
  · next hle => omega
  · next hlt =>
    have hlength : (Bytes.chars t).length = charCount t := List.length_map _
    rw [Bytes.charCount_ofChars, List.length_take, hlength]
    omega

theorem not_mem_cut {b : UInt8} (hb : IsControl b) (h : b ∉ t) (n : Nat) : b ∉ cut t n := by
  unfold cut
  split
  · exact h
  · exact fun hmem => h (Bytes.control_of_chars hb (List.mem_of_mem_take (Bytes.control_of_ofChars hb hmem)))

theorem charCount_centred (t : Bytes) (n : Nat) : charCount (centred t n) = n := by
  unfold centred
  dsimp only
  split
  · rw [charCount_cut]
    omega
  · rw [Bytes.charCount_append _ (Bytes.piece_spaces _).start, (Bytes.piece_spaces _).count, Bytes.spaces_eq,
      Bytes.charCount_ofChars_append, List.length_replicate]
    omega

theorem not_mem_centred {b : UInt8} (hb : IsControl b) (h : b ∉ t) (n : Nat) : b ∉ centred t n := by
  unfold centred
  dsimp only
  split
  · exact not_mem_cut hb h n
  · simp [h, (Bytes.noControls_spaces _).lacks hb]

theorem piece_cut (h : Piece m t) (n : Nat) : Piece (min m n) (cut t n) := by
  refine ⟨by rw [charCount_cut, h.count], ?_, not_mem_cut (by decide) h.single n⟩
  unfold cut
  split
  · exact h.start
  · exact Bytes.start_of_chars (Bytes.chars_ofChars _)

theorem piece_centred (h : Piece m t) (n : Nat) : Piece n (centred t n) := by
  refine ⟨charCount_centred t n, ?_, not_mem_centred (by decide) h.single n⟩
  unfold centred
  dsimp only
  split
  · exact (piece_cut h n).start
  · exact (((Bytes.piece_spaces _).append h).append (Bytes.piece_spaces _)).start

end CircuitDesk.Drawing
