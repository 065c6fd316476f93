import CircuitDesk.Operation
import CircuitDesk.Proofs.Glyphs
import CircuitDesk.Proofs.Numerals

namespace CircuitDesk.Bytes

theorem toNat_ofNat {n : Nat} (hn : n < 256) : (UInt8.ofNat n).toNat = n := by
  rw [UInt8.toNat_ofNat']
  omega

theorem firstGlyph_two {k l : Nat} (hk : 2 ≤ k ∧ k < 32) (hl : l < 64) :
    firstGlyph (.ofNat (k + 192)) [.ofNat (l + 128)] = (.char (Char.ofNat (k * 64 + l)), 1) := by
  have hlead := toNat_ofNat (n := k + 192) (by omega)
  have hlast := toNat_ofNat (n := l + 128) (by omega)
  have hvalue : (k + 192 - 192) * 64 + (l + 128) % 64 = k * 64 + l := by omega
  simp only [firstGlyph, isContinuation, low6, UInt8.lt_iff_toNat_lt, UInt8.le_iff_toNat_le, hlead, hlast,
    UInt8.reduceToNat, Bool.and_eq_true, decide_eq_true_eq]
  rw [if_neg (by omega), if_pos (by omega), if_pos (by omega), hvalue]

theorem secondOk_iff {b b₁ : UInt8} : secondOk b b₁ ↔
    0x80 ≤ b₁.toNat ∧ b₁.toNat ≤ 0xBF ∧ (b.toNat = 0xE0 → 0xA0 ≤ b₁.toNat) ∧ (b.toNat = 0xED → b₁.toNat ≤ 0x9F) ∧
      (b.toNat = 0xF0 → 0x90 ≤ b₁.toNat) ∧ (b.toNat = 0xF4 → b₁.toNat ≤ 0x8F) := by
  unfold secondOk isContinuation
  simp only [← UInt8.toNat_inj, UInt8.reduceToNat, UInt8.le_iff_toNat_le]
  split_ifs <;> simp only [Bool.and_eq_true, decide_eq_true_eq] <;> omega

theorem firstGlyph_three {j k l : Nat} (hj : j < 16) (hk : k < 64) (hl : l < 64) (hlong : j = 0 → 32 ≤ k)
    (hsurrogate : j = 13 → k < 32) :
    firstGlyph (.ofNat (j + 224)) [.ofNat (k + 128), .ofNat (l + 128)] =
      (.char (Char.ofNat ((j * 64 + k) * 64 + l)), 2) := by
  have hlead := toNat_ofNat (n := j + 224) (by omega)
  have hsecond := toNat_ofNat (n := k + 128) (by omega)
  have hlast := toNat_ofNat (n := l + 128) (by omega)
  have hvalue : ((j + 224 - 224) * 64 + (k + 128) % 64) * 64 + (l + 128) % 64 = (j * 64 + k) * 64 + l := by omega
  simp only [firstGlyph, isContinuation, low6, UInt8.lt_iff_toNat_lt, UInt8.le_iff_toNat_le, hlead, hsecond, hlast,
    UInt8.reduceToNat, Bool.and_eq_true, decide_eq_true_eq, secondOk_iff]
  rw [if_neg (by omega), if_neg (by omega), if_pos (by omega), if_pos (by omega), hvalue]

theorem firstGlyph_four {i j k l : Nat} (hi : i < 5) (hj : j < 64) (hk : k < 64) (hl : l < 64)
    (hlong : i = 0 → 16 ≤ j) (hlast : i = 4 → j < 16) :
    firstGlyph (.ofNat (i + 240)) [.ofNat (j + 128), .ofNat (k + 128), .ofNat (l + 128)] =
      (.char (Char.ofNat (((i * 64 + j) * 64 + k) * 64 + l)), 3) := by
  have hlead := toNat_ofNat (n := i + 240) (by omega)
  have hsecond := toNat_ofNat (n := j + 128) (by omega)
  have hthird := toNat_ofNat (n := k + 128) (by omega)
  have hfourth := toNat_ofNat (n := l + 128) (by omega)
  have hvalue : (((i + 240 - 240) * 64 + (j + 128) % 64) * 64 + (k + 128) % 64) * 64 + (l + 128) % 64 =
      ((i * 64 + j) * 64 + k) * 64 + l := by omega
  simp only [firstGlyph, isContinuation, low6, UInt8.lt_iff_toNat_lt, UInt8.le_iff_toNat_le, hlead, hsecond, hthird,
    hfourth, UInt8.reduceToNat, Bool.and_eq_true, decide_eq_true_eq, secondOk_iff]
  rw [if_neg (by omega), if_neg (by omega), if_neg (by omega), if_pos (by omega), if_pos (by omega), hvalue]

theorem firstGlyph_encode (c : Char) :
    ∃ b r, String.utf8EncodeChar c = b :: r ∧ firstGlyph b r = (.char c, r.length) := by
  have hvalid : c.toNat < 0xD800 ∨ 0xDFFF < c.toNat ∧ c.toNat < 0x110000 := c.valid
  have hval : c.val.toNat = c.toNat := rfl
  have hread {n : Nat} (hn : n = c.toNat) : Char.ofNat n = c := by rw [hn, Char.ofNat_toNat]
  unfold String.utf8EncodeChar
  simp only [hval]
  -- the bytes of a character by its number
  split_ifs with hone htwo hthree
  · refine ⟨_, _, rfl, ?_⟩
    have hlead := toNat_ofNat (n := c.toNat) (by omega)
    have hascii : UInt8.ofNat c.toNat < 0x80 := by
      rw [UInt8.lt_iff_toNat_lt, hlead]
      exact Nat.lt_succ_of_le hone
    rw [firstGlyph_ascii hascii, hlead, hread rfl]
    rfl
  · refine ⟨_, _, rfl, ?_⟩
    rw [firstGlyph_two (by omega) (by omega), hread (by omega)]
    rfl
  · refine ⟨_, _, rfl, ?_⟩
    rw [firstGlyph_three (by omega) (by omega) (by omega) (by omega) (by omega), hread (by omega)]
    rfl
  · refine ⟨_, _, rfl, ?_⟩
    rw [firstGlyph_four (by omega) (by omega) (by omega) (by omega) (by omega) (by omega), hread (by omega)]
    rfl

@[simp] theorem ofChars_nil : ofChars [] = [] := List.flatMap_nil

@[simp] theorem ofChars_cons (c : Char) (cs : List Char) : ofChars (c :: cs) = String.utf8EncodeChar c ++ ofChars cs :=
  List.flatMap_cons

theorem exists_ofChars_cons (c : Char) (cs : List Char) :
    ∃ b r, String.utf8EncodeChar c = b :: r ∧ ofChars (c :: cs) = b :: (r ++ ofChars cs) ∧
      firstGlyph b (r ++ ofChars cs) = (.char c, r.length) := by
  obtain ⟨b, r, hbytes, hfirst⟩ := firstGlyph_encode c
  refine ⟨b, r, hbytes, ?_, ?_⟩
  · rw [ofChars_cons, hbytes, List.cons_append]
  · rw [firstGlyph_append_of_char (by rw [hfirst]), hfirst]

theorem glyphs_encode (c : Char) : glyphs (String.utf8EncodeChar c) = [.char c] := by
  obtain ⟨b, r, hbytes, hfirst⟩ := firstGlyph_encode c
  rw [hbytes, glyphs, hfirst, List.drop_length, glyphs]

theorem glyphs_ofChars (cs : List Char) : glyphs (ofChars cs) = cs.map .char := by
  induction cs with
  | nil => rw [ofChars_nil, glyphs, List.map_nil]
  | cons c cs ih =>
    have hchars : ∀ g ∈ glyphs (String.utf8EncodeChar c), ∃ c, g = .char c := by
      rw [glyphs_encode]
      exact fun g hg => ⟨c, List.mem_singleton.mp hg⟩
    rw [ofChars_cons, glyphs_append_of_chars hchars, glyphs_encode, ih]
    rfl

theorem charCount_ofChars (cs : List Char) : charCount (ofChars cs) = cs.length := by
  rw [charCount, glyphs_ofChars, List.length_map]

/-- Bytes of ASCII below the blank, without zero, which is also what stands for no character at all. -/
def IsControl (b : UInt8) : Prop := 0 < b ∧ b < 32

instance (b : UInt8) : Decidable (IsControl b) := inferInstanceAs (Decidable (_ ∧ _))

theorem IsControl.toNat {b : UInt8} (h : IsControl b) : 0 < b.toNat ∧ b.toNat < 32 := by
  simpa only [IsControl, UInt8.lt_iff_toNat_lt, UInt8.reduceToNat] using h

theorem control_of_encode {b : UInt8} (hb : IsControl b) {c : Char} (h : b ∈ String.utf8EncodeChar c) :
    c = Char.ofNat b.toNat := by
  have hsmall := hb.toNat
  have hbyte {n : Nat} (hn : n < 256) (h : b = .ofNat n) : b.toNat = n := by rw [h, toNat_ofNat hn]
  have hval : c.val.toNat = c.toNat := rfl
  unfold String.utf8EncodeChar at h
  simp only [hval] at h
  split_ifs at h with hone htwo hthree <;> simp only [List.mem_cons, List.not_mem_nil, or_false] at h
  · rw [hbyte (by omega) h, Char.ofNat_toNat]
  · rcases h with h | h <;> have := hbyte (by omega) h <;> omega
  · rcases h with h | h | h <;> have := hbyte (by omega) h <;> omega
  · rcases h with h | h | h | h <;> have := hbyte (by omega) h <;> omega

theorem control_of_ofChars {b : UInt8} (hb : IsControl b) {cs : List Char} (h : b ∈ ofChars cs) :
    Char.ofNat b.toNat ∈ cs := by
  obtain ⟨c, hc, hmem⟩ := List.mem_flatMap.mp h
  rwa [← control_of_encode hb hmem]

theorem toNat_charOfNat {n : Nat} (h : n.isValidChar) : (Char.ofNat n).toNat = n := by
  rw [Char.ofNat, dif_pos h]
  rfl

theorem eq_of_ofNat_eq_control {b : UInt8} (hb : IsControl b) {n : Nat} (h : Char.ofNat n = Char.ofNat b.toNat) :
    n = b.toNat := by
  have hsmall := hb.toNat
  have hvalue : (Char.ofNat n).toNat = b.toNat := by rw [h, toNat_charOfNat (.inl (by omega))]
  by_cases hvalid : n.isValidChar
  · rwa [toNat_charOfNat hvalid] at hvalue
  · rw [Char.ofNat, dif_neg hvalid] at hvalue
    have hzero : (0 : Nat) = b.toNat := hvalue
    omega

theorem control_of_firstGlyph {x : UInt8} (hx : IsControl x) {b : UInt8} {r : Bytes}
    (h : (firstGlyph b r).1.toChar = Char.ofNat x.toNat) : b = x := by
  have hsmall := hx.toNat
  have hstray : (Glyph.stray b).toChar ≠ Char.ofNat x.toNat := by
    intro heq
    have hvalue : 0xFFFD = x.toNat := eq_of_ofNat_eq_control hx heq
    omega
  unfold firstGlyph at h
  split_ifs at h with hascii htwo hthree hfour
  · exact UInt8.toNat_inj.mp (eq_of_ofNat_eq_control hx h)
  · rcases r with _ | ⟨b₁, r⟩
    · exact absurd h hstray
    · dsimp only at h
      split_ifs at h with hcont
      · have hvalue := eq_of_ofNat_eq_control hx h
        simp only [Bool.and_eq_true, decide_eq_true_eq, UInt8.le_iff_toNat_le, UInt8.reduceToNat] at htwo
        omega
      · exact absurd h hstray
  · rcases r with _ | ⟨b₁, _ | ⟨b₂, r⟩⟩
    · exact absurd h hstray
    · exact absurd h hstray
    · dsimp only at h
      split_ifs at h with hcont
      · have hvalue := eq_of_ofNat_eq_control hx h
        simp only [Bool.and_eq_true, decide_eq_true_eq, UInt8.le_iff_toNat_le, UInt8.reduceToNat, low6,
          secondOk_iff] at hthree hcont hvalue
        omega
      · exact absurd h hstray
  · rcases r with _ | ⟨b₁, _ | ⟨b₂, _ | ⟨b₃, r⟩⟩⟩
    · exact absurd h hstray
    · exact absurd h hstray
    · exact absurd h hstray
    · dsimp only at h
      split_ifs at h with hcont
      · have hvalue := eq_of_ofNat_eq_control hx h
        simp only [Bool.and_eq_true, decide_eq_true_eq, UInt8.le_iff_toNat_le, UInt8.reduceToNat, low6,
          secondOk_iff] at hfour hcont hvalue
        omega
      · exact absurd h hstray
  · exact absurd h hstray

theorem control_of_chars {b : UInt8} (hb : IsControl b) {t : Bytes} (h : Char.ofNat b.toNat ∈ chars t) : b ∈ t := by
  induction t using glyphs.induct with
  | case1 => simp [chars, glyphs] at h
  | case2 x r ih =>
    rw [chars, glyphs, List.map_cons, List.mem_cons] at h
    rcases h with h | h
    · rw [control_of_firstGlyph hb h.symm]
      exact List.mem_cons_self
    · exact List.mem_cons_of_mem x (List.mem_of_mem_drop (ih h))

def Visible (s : Bytes) : Prop := ∀ b ∈ s, 32 ≤ b ∧ b < 127

instance (s : Bytes) : Decidable (Visible s) := List.decidableBAll _ s

def NoControls (s : Bytes) : Prop := ∀ b ∈ s, 32 ≤ b

instance (s : Bytes) : Decidable (NoControls s) := List.decidableBAll _ s

theorem NoControls.append {a b : Bytes} (ha : NoControls a) (hb : NoControls b) : NoControls (a ++ b) :=
  List.forall_mem_append.mpr ⟨ha, hb⟩

theorem NoControls.lacks {s : Bytes} (h : NoControls s) {b : UInt8} (hb : IsControl b) : b ∉ s := fun hmem =>
  UInt8.not_lt.mpr (h b hmem) hb.2

theorem noControls_spaces (n : Nat) : NoControls (spaces n) := by
  intro b hb
  rw [List.eq_of_mem_replicate hb]
  decide

theorem Visible.noControls {s : Bytes} (h : Visible s) : NoControls s := fun b hb => (h b hb).1

theorem Visible.append {a b : Bytes} (ha : Visible a) (hb : Visible b) : Visible (a ++ b) :=
  List.forall_mem_append.mpr ⟨ha, hb⟩

theorem AllDigits.visible {s : Bytes} (h : AllDigits s) : Visible s := by
  intro b hb
  have hdigit := (isDigit_iff b).mp (h b hb)
  simp only [UInt8.le_iff_toNat_le, UInt8.lt_iff_toNat_lt, UInt8.reduceToNat]
  omega

theorem visible_ofInt64 (w : Int64) : Visible (ofInt64 w) := by
  rw [ofInt64]
  cases w.toInt with
  | ofNat n => exact (allDigits_ofNat n).visible
  | negSucc n => exact List.forall_mem_cons.mpr ⟨by decide, (allDigits_ofNat (n + 1)).visible⟩

theorem visible_opName (op : GateOp) : Visible op.name := by
  cases op with
  | unknown n => exact (Visible.append (by decide) (visible_ofInt64 n)).append (by decide)
  | _ => decide

end CircuitDesk.Bytes
