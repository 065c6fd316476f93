import CircuitDesk.Display
import CircuitDesk.Proofs.Pieces

namespace CircuitDesk.Display

open Bytes (ofChars)

/-- A character of one column that no character beside it joins. -/
def Single (c : Char) : Prop :=
  charWidth c.toNat = 1 ∧ (charKind c.toNat = .other ∨ charKind c.toNat = .pictograph)

instance (c : Char) : Decidable (Single c) := inferInstanceAs (Decidable (_ ∧ _))

theorem Single.printable {c : Char} (h : Single c) (hascii : c.toNat < 0x80) : 0x20 ≤ c.toNat ∧ c.toNat ≤ 0x7E := by
  refine Decidable.byContradiction fun hrange => ?_
  have hkind : charKind c.toNat ∈ [CharKind.lineFeed, .carriageReturn, .control] := by
    have hbasic : ¬ (0x20 ≤ c.toNat && c.toNat ≤ 0x7E) = true := by simpa using hrange
    rw [charKind, if_neg hbasic, if_pos (show c.toNat ≤ 0x9F by omega)]
    split
    · simp
    · split <;> simp
  rcases h.2 with h | h <;> simp [h] at hkind

def columns (t : Bytes) : List Bytes := (pieces t).flatMap fun p => List.replicate p.width p.text

theorem length_columns (t : Bytes) : (columns t).length = width t := by
  rw [columns, width]
  induction pieces t with
  | nil => rfl
  | cons p ps ih => rw [List.flatMap_cons, List.length_append, List.length_replicate, ih, piecesWidth]

theorem not_joins {k k' : CharKind} (hk : k = .other ∨ k = .pictograph) (hk' : k' = .other ∨ k' = .pictograph) :
    (ClusterState.opening k).joins k' = false := by
  rcases hk with rfl | rfl <;> rcases hk' with rfl | rfl <;> rfl

theorem isLead_iff {b : UInt8} : isLead b ↔ 0xC2 ≤ b.toNat ∧ b.toNat ≤ 0xF4 := by
  simp [isLead, UInt8.le_iff_toNat_le]

theorem encode_cases (c : Char) :
    c.toNat < 0x80 ∧ String.utf8EncodeChar c = [UInt8.ofNat c.toNat] ∨
      0x80 ≤ c.toNat ∧ ∃ b r, String.utf8EncodeChar c = b :: r ∧ isLead b := by
  have hvalid : c.toNat < 0xD800 ∨ 0xDFFF < c.toNat ∧ c.toNat < 0x110000 := c.valid
  have hval : c.val.toNat = c.toNat := rfl
  have hlead {n : Nat} (hn : 0xC2 ≤ n ∧ n ≤ 0xF4) : isLead (UInt8.ofNat n) := by
    rw [isLead_iff, Bytes.toNat_ofNat (by omega)]
    exact hn
  unfold String.utf8EncodeChar
  simp only [hval]
  split_ifs with hone htwo hthree
  · exact .inl ⟨by omega, rfl⟩
  · exact .inr ⟨by omega, _, _, rfl, hlead (by omega)⟩
  · exact .inr ⟨by omega, _, _, rfl, hlead (by omega)⟩
  · exact .inr ⟨by omega, _, _, rfl, hlead (by omega)⟩

section

variable {c : Char} {cs : List Char}

theorem clusterRest_ofChars (hc : Single c) (hcs : ∀ d ∈ cs, Single d) :
    clusterRest (charKind c.toNat) (.opening (charKind c.toNat)) 1 (ofChars cs) = (0, 1) := by
  cases cs with
  | nil => rw [Bytes.ofChars_nil, clusterRest]
  | cons d ds =>
    obtain ⟨b, r, -, htext, hglyph⟩ := Bytes.exists_ofChars_cons d ds
    rw [htext, clusterRest, hglyph]
    simp [Bytes.Glyph.toChar, not_joins hc.2 (hcs d List.mem_cons_self).2]

theorem firstPiece_ofChars (hcs : ∀ d ∈ c :: cs, Single d) :
    ∃ b r, ofChars (c :: cs) = b :: (r ++ ofChars cs) ∧
      firstPiece .ground b (r ++ ofChars cs) = (.shown (String.utf8EncodeChar c) 1, r.length) := by
  obtain ⟨hc, hcs⟩ := List.forall_mem_cons.mp hcs
  obtain ⟨b, r, hbytes, htext, hglyph⟩ := Bytes.exists_ofChars_cons c cs
  refine ⟨b, r, htext, ?_⟩
  rcases encode_cases c with ⟨hascii, hbyte⟩ | ⟨-, b', r', hbytes', hlead⟩
  · obtain ⟨rfl, rfl⟩ := List.cons.inj (hbytes.symm.trans hbyte)
    have hrange := hc.printable hascii
    have hnat := Bytes.toNat_ofNat (n := c.toNat) (by omega)
    have hlead : ¬ isLead (UInt8.ofNat c.toNat) := by
      rw [isLead_iff, hnat]
      omega
    have hshown : 0x20 ≤ UInt8.ofNat c.toNat ∧ UInt8.ofNat c.toNat ≤ 0x7E := by
      rw [UInt8.le_iff_toNat_le, UInt8.le_iff_toNat_le, hnat]
      exact hrange
    simp [firstPiece, hlead, hshown, hbytes]
  · obtain ⟨rfl, rfl⟩ := List.cons.inj (hbytes.symm.trans hbytes')
    have hcluster : firstCluster b (r ++ ofChars cs) = (r.length, 1) := by
      simp only [firstCluster, hglyph, List.drop_left, Bytes.Glyph.toChar, hc.1,
        clusterRest_ofChars hc hcs, Nat.add_zero]
    simp [firstPiece, hlead, EscapeState.hidesCharacters, hcluster, hbytes]

theorem pieces_ofChars (hcs : ∀ d ∈ cs, Single d) :
    pieces (ofChars cs) = cs.map fun c => .shown (String.utf8EncodeChar c) 1 := by
  rw [pieces]
  induction cs with
  | nil => rw [Bytes.ofChars_nil, piecesFrom, List.map_nil]
  | cons c cs ih =>
    obtain ⟨b, r, htext, hfirst⟩ := firstPiece_ofChars hcs
    rw [htext, piecesFrom, hfirst, List.drop_left, EscapeState.afterPiece, ih (List.forall_mem_cons.mp hcs).2,
      List.map_cons]

theorem columns_ofChars (hcs : ∀ d ∈ cs, Single d) : columns (ofChars cs) = cs.map String.utf8EncodeChar := by
  rw [columns, pieces_ofChars hcs, List.flatMap_map]
  exact List.map_eq_flatMap.symm

theorem width_ofChars (hcs : ∀ d ∈ cs, Single d) : width (ofChars cs) = cs.length := by
  rw [← length_columns, columns_ofChars hcs, List.length_map]

theorem hiddenOnly_ofChars (hcs : ∀ d ∈ cs, Single d) : hiddenOnly .ground (ofChars cs) = [] := by
  induction cs with
  | nil => rw [Bytes.ofChars_nil, hiddenOnly]
  | cons c cs ih =>
    obtain ⟨b, r, htext, hfirst⟩ := firstPiece_ofChars hcs
    rw [htext, hiddenOnly, hfirst]
    simp only [List.drop_left]
    exact ih (List.forall_mem_cons.mp hcs).2

theorem keepFirst_ofChars (hcs : ∀ d ∈ cs, Single d) (n : Nat) :
    keepFirst [] .ground n (ofChars cs) = ofChars (cs.take n) := by
  induction cs generalizing n with
  | nil => rw [Bytes.ofChars_nil, keepFirst, List.take_nil, Bytes.ofChars_nil]
  | cons c cs ih =>
    have hlater := (List.forall_mem_cons.mp hcs).2
    obtain ⟨b, r, htext, hfirst⟩ := firstPiece_ofChars hcs
    rw [htext, keepFirst, hfirst]
    simp only [List.drop_left]
    cases n with
    | zero => simpa using hiddenOnly_ofChars hlater
    | succ n =>
      rw [if_pos (Nat.succ_le_succ n.zero_le), Nat.add_sub_cancel, ih hlater, List.take_succ_cons, Bytes.ofChars_cons]

theorem dropColumns_ofChars (hcs : ∀ d ∈ cs, Single d) (n : Nat) :
    dropColumns .ground n (ofChars cs) = ofChars (cs.drop n) := by
  induction cs generalizing n with
  | nil => rw [Bytes.ofChars_nil, dropColumns, List.drop_nil, Bytes.ofChars_nil]
  | cons c cs ih =>
    obtain ⟨b, r, htext, hfirst⟩ := firstPiece_ofChars hcs
    rw [htext, dropColumns, hfirst]
    simp only [List.drop_left]
    cases n with
    | zero => rw [if_neg (by decide), List.drop_zero, Bytes.ofChars_cons]
    | succ n =>
      rw [if_pos (Nat.succ_le_succ n.zero_le), Nat.add_sub_cancel, ih (List.forall_mem_cons.mp hcs).2,
        List.drop_succ_cons]

theorem truncate_ofChars (hcs : ∀ d ∈ cs, Single d) (n : Nat) : truncate (ofChars cs) n [] = ofChars (cs.take n) := by
  have hnil : width [] = 0 := by rw [width, pieces, piecesFrom, piecesWidth]
  rw [truncate, width_ofChars hcs, hnil]
  split
  · next hle => rw [List.take_of_length_le hle]
  · rw [if_neg (Nat.not_lt_zero n), Nat.sub_zero, keepFirst_ofChars hcs]

theorem truncateLeft_ofChars (hcs : ∀ d ∈ cs, Single d) (n : Nat) :
    truncateLeft (ofChars cs) n = ofChars (cs.drop n) := by
  rw [truncateLeft]
  split
  · next hzero => rw [hzero, List.drop_zero]
  · exact dropColumns_ofChars hcs n

end

end CircuitDesk.Display
