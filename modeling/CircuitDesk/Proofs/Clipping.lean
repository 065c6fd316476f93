import CircuitDesk.Proofs.Rectangle

namespace CircuitDesk.Bytes

variable {s t : Bytes} {n : Nat}

def firstChars : Nat → Bytes → Bytes
  | 0, _ => []
  | _ + 1, [] => []
  | n + 1, b :: r => b :: (r.take (firstGlyph b r).2 ++ firstChars n (r.drop (firstGlyph b r).2))

theorem firstChars_append (hs : charCount s = n) (ht : ∀ x ∈ t.head?, isContinuation x = false) :
    firstChars n (s ++ t) = s := by
  induction s using glyphs.induct generalizing n with
  | case1 =>
    obtain rfl : 0 = n := by simpa [charCount, glyphs] using hs
    rw [firstChars]
  | case2 b r ih =>
    have hcount : charCount (b :: r) = charCount (r.drop (firstGlyph b r).2) + 1 := by
      rw [charCount, glyphs, List.length_cons]
      rfl
    obtain ⟨n, rfl⟩ : ∃ k, n = k + 1 := ⟨_, hs.symm.trans hcount⟩
    have hlength := firstGlyph_le b r
    have hrest : firstChars n (r.drop (firstGlyph b r).2 ++ t) = r.drop (firstGlyph b r).2 :=
      ih (Nat.succ.inj (hcount.symm.trans hs))
    rw [List.cons_append, firstChars, firstGlyph_append_of_start b r ht, List.take_append_of_le_length hlength,
      List.drop_append_of_le_length hlength, hrest, List.take_append_drop]

example : firstChars 2 [0xC3, 0xA9, 0xC3, 120] = [0xC3, 0xA9, 0xC3] := by decide

end CircuitDesk.Bytes

namespace CircuitDesk.Drawing

open Bytes (Piece charCount firstChars firstChars_append newline)

variable {c : Circuit} {m n : Nat}

theorem headerLine_eq_append (c : Circuit) (hmn : m ≤ n) :
    ∃ rest, headerLine .plain c n = headerLine .plain c m ++ rest ∧
      ∀ b ∈ rest.head?, Bytes.isContinuation b = false := by
  obtain ⟨k, rfl⟩ := Nat.exists_eq_add_of_le hmn
  have hrest : Piece _ (((List.range k).map (m + ·)).flatMap fun i => centred (Bytes.ofNat i) cellWidth) :=
    Piece.flatMap fun i _ => piece_centred (Bytes.allDigits_ofNat i).visible.piece cellWidth
  refine ⟨_, ?_, hrest.start⟩
  simp only [headerLine, Palette.paint, List.range_add, List.flatMap_append, List.append_assoc]

theorem firstChars_headerLine (c : Circuit) (hmn : m ≤ n) :
    firstChars (c.labelWidth + 2 + 11 * m) (headerLine .plain c n) = headerLine .plain c m := by
  obtain ⟨rest, hline, hrest⟩ := headerLine_eq_append c hmn
  rw [hline]
  exact firstChars_append (piece_headerLine c m).count hrest

theorem firstChars_rowLines {front back : List Cell} {w : Wire} (hw : w ∈ c.wires)
    (hcells : ∀ cell ∈ front ++ back, cell.mark.Fits) :
    (rowLines .plain c c.labelWidth w (front ++ back)).map (firstChars (c.labelWidth + 2 + 11 * front.length)) =
      rowLines .plain c c.labelWidth w front := by
  obtain ⟨hfront, hback⟩ := List.forall_mem_append.mp hcells
  have hcut {l rest : Bytes} (hl : l ∈ rowLines .plain c c.labelWidth w front)
      (hrest : Piece (11 * back.length) rest) :
      firstChars (c.labelWidth + 2 + 11 * front.length) (l ++ rest) = l :=
    firstChars_append (pieces_rowLines hw hfront l hl).count hrest.start
  have htop := piece_parts (·.1) fun cell hcell => (Cell.pieces_lines (hback cell hcell)).1
  have hmiddle := piece_parts (·.2.1) fun cell hcell => (Cell.pieces_lines (hback cell hcell)).2.1
  have hbottom := piece_parts (·.2.2) fun cell hcell => (Cell.pieces_lines (hback cell hcell)).2.2
  simp only [rowLines, List.map_append, List.flatMap_append, ← List.append_assoc, List.map_cons, List.map_nil]
  rw [hcut (by simp [rowLines]) htop, hcut (by simp [rowLines]) hmiddle, hcut (by simp [rowLines]) hbottom]

theorem row_eq_append (c : Circuit) (hmn : m ≤ n) (r : Nat) :
    ((cells c n).map fun cells => (cells[r]?).getD .blank) =
      ((cells c m).map fun cells => (cells[r]?).getD .blank) ++
        ((cells c n).drop m).map fun cells => (cells[r]?).getD .blank := by
  have hcells : cells c m = (cells c n).take m := by
    rw [cells, cells, ← List.map_take, List.take_take, Nat.min_eq_left hmn]
  rw [hcells, ← List.map_append, List.take_append_drop]

theorem firstChars_wireLines (hmn : m ≤ n) (hn : n ≤ c.layout.length) (hsingle : ∀ g ∈ c.gates, g.Lacks newline) :
    (wireLines c n).map (firstChars (c.labelWidth + 2 + 11 * m)) = wireLines c m := by
  rw [wireLines, wireLines, List.map_cons, firstChars_headerLine c hmn, List.map_flatMap]
  congr 1
  refine List.flatMap_congr fun p hp => ?_
  have hfits := fits_row hsingle n p.2
  have hlength := length_row c (Nat.le_trans hmn hn) p.2
  rw [row_eq_append c hmn p.2] at hfits
  dsimp only
  rw [row_eq_append c hmn p.2]
  have hcut := firstChars_rowLines (List.fst_mem_of_mem_zipIdx hp) hfits
  rwa [hlength] at hcut

def Clipped (n : Nat) (more whole limited : Bytes) : Prop :=
  ∃ rows, Bytes.lines whole = rows ++ [[]] ∧ Bytes.lines limited = rows.map (firstChars n) ++ [more, []]

theorem text_of_limit (c : Circuit) (m : Int) (hwires : c.mentionedWires ≠ [])
    (hsingle : ∀ g ∈ c.gates, g.Lacks newline) :
    (m ≤ 0 ∨ c.layout.length ≤ m → text ⟨.plain, m⟩ c = text ⟨.plain, 0⟩ c) ∧
      (0 < m → m < c.layout.length →
        ∃ width, IsGreatest {n | n = 5 ∨ ∃ w ∈ c.mentionedWires, n = charCount (c.wireLabel w)} width ∧
          Clipped (width + 2 + 11 * m.toNat)
            (Bytes.ofString "  ▶ " ++ Bytes.ofNat (c.layout.length - m.toNat) ++ " more columns")
            (text ⟨.plain, 0⟩ c) (text ⟨.plain, m⟩ c)) := by
  have hall : Options.shownColumns ⟨.plain, 0⟩ c.layout.length = c.layout.length := if_neg (by simp)
  constructor
  · intro hm
    have hshown : Options.shownColumns ⟨.plain, m⟩ c.layout.length = c.layout.length := if_neg (by dsimp only; omega)
    rw [text, text, lines_of_cells, lines_of_cells]
    dsimp only
    rw [hall, hshown]
  · intro hpos hlt
    have hshown : Options.shownColumns ⟨.plain, m⟩ c.layout.length = m.toNat := if_pos ⟨hpos, hlt⟩
    have hle : m.toNat ≤ c.layout.length := by omega
    refine ⟨c.labelWidth, isGreatest_labelWidth c, wireLines c c.layout.length, ?_, ?_⟩
    · rw [lines_text ⟨.plain, 0⟩ c rfl hwires hsingle, hall, hiddenLines, if_pos (Nat.sub_self _), List.append_nil]
    · rw [lines_text ⟨.plain, m⟩ c rfl hwires hsingle, hshown, firstChars_wireLines hle (Nat.le_refl _) hsingle,
        hiddenLines, if_neg (by omega), List.append_assoc]
      rfl

theorem text_of_limit_staggered :
    let c := Circuit.staggered
    (c.mentionedWires ≠ [] ∧ ∀ g ∈ c.gates, g.Lacks newline) ∧ c.layout.length = 4 ∧
      text ⟨.plain, 4⟩ c = text ⟨.plain, 0⟩ c ∧
      ∃ width, IsGreatest {n | n = 5 ∨ ∃ w ∈ c.mentionedWires, n = charCount (c.wireLabel w)} width ∧
        Clipped (width + 24) (Bytes.ofString "  ▶ 2 more columns") (text ⟨.plain, 0⟩ c) (text ⟨.plain, 2⟩ c) := by
  intro c
  have hwires : c.mentionedWires ≠ [] := by decide
  have hsingle : ∀ g ∈ c.gates, g.Lacks newline := by decide +kernel
  have hcolumns : c.layout.length = 4 := by
    rw [Circuit.layout_eq, Circuit.gateColumns_staggered]
    decide
  refine ⟨⟨hwires, hsingle⟩, hcolumns, (text_of_limit c 4 hwires hsingle).1 (.inr (by omega)), ?_⟩
  have hclipped := (text_of_limit c 2 hwires hsingle).2 (by decide) (by omega)
  have hmore : Bytes.ofString "  ▶ " ++ Bytes.ofNat (4 - Int.toNat 2) ++ " more columns" =
      Bytes.ofString "  ▶ 2 more columns" := by decide +kernel
  rw [hcolumns, hmore] at hclipped
  exact hclipped

end CircuitDesk.Drawing
