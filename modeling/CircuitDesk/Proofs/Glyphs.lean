import CircuitDesk.Bytes.Chars
import Mathlib.Tactic.SplitIfs

namespace CircuitDesk.Bytes

theorem not_continuation_of_ascii {b : UInt8} (hb : b < 0x80) : isContinuation b = false := by
  simp only [isContinuation, Bool.and_eq_false_iff, decide_eq_false_iff_not, UInt8.not_le]
  exact .inl hb

theorem not_second_of_not_continuation (lead : UInt8) {b : UInt8} (hb : isContinuation b = false) :
    secondOk lead b = false := by
  simp only [isContinuation, Bool.and_eq_false_iff, decide_eq_false_iff_not, UInt8.le_iff_toNat_le] at hb
  simp only [UInt8.reduceToNat] at hb
  rw [Bool.eq_false_iff]
  intro h
  unfold secondOk at h
  split_ifs at h <;> simp [isContinuation, UInt8.le_iff_toNat_le] at h <;> omega

theorem firstGlyph_append (c : UInt8) (r : Bytes) {b : UInt8} (hb : isContinuation b = false) (s : Bytes) :
    firstGlyph c (r ++ b :: s) = firstGlyph c r := by
  have hsecond := fun lead => not_second_of_not_continuation lead hb
  rcases r with _ | ⟨x, _ | ⟨y, _ | ⟨z, r⟩⟩⟩
  · rcases s with _ | ⟨y, _ | ⟨z, s⟩⟩ <;> simp [firstGlyph, hb, hsecond]
  · rcases s with _ | ⟨z, s⟩ <;> simp [firstGlyph, hb]
  · simp [firstGlyph, hb]
  · rfl

theorem firstGlyph_append_of_start (c : UInt8) (r : Bytes) {s : Bytes} (hs : ∀ b ∈ s.head?, isContinuation b = false) :
    firstGlyph c (r ++ s) = firstGlyph c r := by
  cases s with
  | nil => rw [List.append_nil]
  | cons b s => exact firstGlyph_append c r (hs b rfl) s

theorem firstGlyph_le (c : UInt8) (r : Bytes) : (firstGlyph c r).2 ≤ r.length := by
  rcases r with _ | ⟨x, _ | ⟨y, _ | ⟨z, r⟩⟩⟩ <;> simp only [firstGlyph] <;> split_ifs <;> simp

theorem glyphs_append (a : Bytes) {b : UInt8} (hb : isContinuation b = false) (s : Bytes) :
    glyphs (a ++ b :: s) = glyphs a ++ glyphs (b :: s) := by
  induction a using glyphs.induct with
  | case1 => simp [glyphs]
  | case2 c r ih =>
    rw [List.cons_append, glyphs, glyphs, firstGlyph_append c r hb, List.drop_append_of_le_length (firstGlyph_le c r),
      ih, List.cons_append]

theorem charCount_append (a : Bytes) {s : Bytes} (hs : ∀ b ∈ s.head?, isContinuation b = false) :
    charCount (a ++ s) = charCount a + charCount s := by
  cases s with
  | nil => simp [charCount, glyphs]
  | cons b s =>
    rw [charCount, glyphs_append a (hs b rfl), List.length_append]
    rfl

theorem firstGlyph_append_of_char {b : UInt8} {r : Bytes} {c : Char} (h : (firstGlyph b r).1 = .char c) (s : Bytes) :
    firstGlyph b (r ++ s) = firstGlyph b r := by
  rcases r with _ | ⟨x, _ | ⟨y, _ | ⟨z, r⟩⟩⟩
  · simp only [firstGlyph] at h ⊢
    split_ifs at h ⊢
    all_goals simp_all
  · simp only [firstGlyph, List.cons_append] at h ⊢
    split_ifs at h ⊢ <;> simp_all
  · simp only [firstGlyph, List.cons_append] at h ⊢
    split_ifs at h ⊢ <;> simp_all
  · rfl

theorem glyphs_append_of_chars {a : Bytes} (ha : ∀ g ∈ glyphs a, ∃ c, g = .char c) (s : Bytes) :
    glyphs (a ++ s) = glyphs a ++ glyphs s := by
  induction a using glyphs.induct with
  | case1 => simp [glyphs]
  | case2 b r ih =>
    rw [glyphs] at ha
    obtain ⟨c, hc⟩ := ha _ List.mem_cons_self
    have hrest := ih fun g hg => ha g (List.mem_cons_of_mem _ hg)
    rw [List.cons_append, glyphs, glyphs, firstGlyph_append_of_char hc,
      List.drop_append_of_le_length (firstGlyph_le b r), hrest, List.cons_append]

theorem firstGlyph_ascii {b : UInt8} (hb : b < 0x80) (s : Bytes) :
    firstGlyph b s = (.char (Char.ofNat b.toNat), 0) := by
  unfold firstGlyph
  exact if_pos hb

theorem glyphs_ascii {b : UInt8} (hb : b < 0x80) (s : Bytes) :
    glyphs (b :: s) = .char (Char.ofNat b.toNat) :: glyphs s := by
  rw [glyphs, firstGlyph_ascii hb, List.drop_zero]

end CircuitDesk.Bytes
