import CircuitDesk.Proofs.Marks
import CircuitDesk.Proofs.Pieces

namespace CircuitDesk

open Bytes (Piece charCount newline piece_framed piece_ofString piece_spaces visible_ofInt64)

namespace Drawing

variable {c : Circuit} {g : Gate} {gates : List Gate} {cell : Cell} {mark : Mark}

def Mark.Fits : Mark → Prop
  | .box text _ => newline ∉ text
  | .label text => newline ∉ text
  | .target symbol => Piece 1 symbol
  | _ => True

theorem piece_dashes (n : Nat) : Piece n (dashes n) := by
  have hdash : Piece 1 "─" := piece_ofString "─" (by decide)
  have hpiece := hdash.times n
  rwa [Nat.one_mul] at hpiece

theorem piece_dashed {s : Bytes} (h : Piece 1 s) {n : Nat} (hn : 1 ≤ n) : Piece n (dashed n s) := by
  have hpiece := ((piece_dashes (n / 2)).append h).append (piece_dashes (n - n / 2 - 1))
  have hwidth : n / 2 + 1 + (n - n / 2 - 1) = n := by omega
  rwa [hwidth] at hpiece

theorem piece_gapLine (linked : Bool) : Piece cellWidth (gapLine linked) := by
  cases linked with
  | false => exact piece_spaces cellWidth
  | true => exact ((piece_spaces 5).append (piece_ofString "│" (by decide))).append (piece_spaces 5)

theorem piece_edge {left joint right : Bytes} (hleft : Piece 1 left) (hjoint : Piece 1 joint) (hright : Piece 1 right)
    (linked : Bool) : Piece (nameWidth + 2)
      (left ++ (if linked then dashed nameWidth joint else dashes nameWidth) ++ right) := by
  have hedge : Piece nameWidth (if linked then dashed nameWidth joint else dashes nameWidth) := by
    cases linked with
    | false => exact piece_dashes nameWidth
    | true => exact piece_dashed hjoint (by decide)
  exact (hleft.append hedge).append hright

theorem piece_boxed {name : Bytes} (hcount : charCount name = nameWidth) (hsingle : newline ∉ name) :
    Piece (nameWidth + 2) (Bytes.ofString "┤" ++ name ++ "├") :=
  (hcount ▸ piece_framed "┤" (by decide) (by decide) hsingle).append (piece_ofString "├" (by decide))

theorem piece_labelled {text : Bytes} (h : newline ∉ text) :
    Piece cellWidth (Bytes.ofString "─" ++ cut text (cellWidth - 2) ++
      dashes (cellWidth - 1 - charCount (cut text (cellWidth - 2)))) := by
  have hcount := charCount_cut text (cellWidth - 2)
  have hpiece := (piece_framed "─" (by decide) (by decide) (not_mem_cut (by decide) h (cellWidth - 2))).append
    (piece_dashes (cellWidth - 1 - charCount (cut text (cellWidth - 2))))
  have hwidth : 1 + charCount (cut text (cellWidth - 2)) +
      (cellWidth - 1 - charCount (cut text (cellWidth - 2))) = cellWidth := by
    have hcell : cellWidth = 11 := rfl
    omega
  have hframe : "─".toList.length = 1 := rfl
  rwa [hframe, hwidth] at hpiece

theorem Cell.pieces_lines (h : cell.mark.Fits) :
    Piece cellWidth (cell.lines .plain).1 ∧ Piece cellWidth (cell.lines .plain).2.1 ∧
      Piece cellWidth (cell.lines .plain).2.2 := by
  obtain ⟨mark, above, below⟩ := cell
  have htop := piece_gapLine above
  have hbottom := piece_gapLine below
  cases mark with
  | wire => exact ⟨htop, piece_dashes cellWidth, hbottom⟩
  | crossing => exact ⟨htop, piece_dashed (piece_ofString "┼" (by decide)) (by decide), hbottom⟩
  | control positive =>
    have hsymbol : Piece 1 (controlSymbol positive) := by
      cases positive with
      | false => exact piece_ofString "○" (by decide)
      | true => exact piece_ofString "●" (by decide)
    exact ⟨htop, piece_dashed hsymbol (by decide), hbottom⟩
  | target symbol => exact ⟨htop, piece_dashed h (by decide), hbottom⟩
  | init value =>
    have htext : Piece 3 (initText value) := by
      cases value with
      | false => exact piece_ofString "|0>" (by decide)
      | true => exact piece_ofString "|1>" (by decide)
    have hdashes : cellWidth - 2 - charCount (initText value) = 6 := by rw [htext.count]; rfl
    refine ⟨htop, ?_, hbottom⟩
    change Piece cellWidth
      (Bytes.ofString "  " ++ initText value ++ dashes (cellWidth - 2 - charCount (initText value)))
    rw [hdashes]
    exact ((piece_ofString "  " (by decide)).append htext).append (piece_dashes 6)
  | label text => exact ⟨htop, piece_labelled h, hbottom⟩
  | box text isCall =>
    have hlid := piece_edge (piece_ofString "┌" (by decide)) (piece_ofString "┴" (by decide))
      (piece_ofString "┐" (by decide)) above
    have hbase := piece_edge (piece_ofString "└" (by decide)) (piece_ofString "┬" (by decide))
      (piece_ofString "┘" (by decide)) below
    have hname := piece_boxed (charCount_centred text nameWidth) (not_mem_centred (by decide) h nameWidth)
    exact ⟨((piece_spaces 2).append hlid).append (piece_spaces 2),
      ((piece_dashes 2).append hname).append (piece_dashes 2), ((piece_spaces 2).append hbase).append (piece_spaces 2)⟩

theorem piece_target {m : Wire × Mark} (hm : m ∈ marks g) {symbol : Bytes} (hsymbol : m.2 = .target symbol) :
    Piece 1 symbol := by
  cases g with
  | named op inverted w control =>
    simp only [marks, controlMarks, List.mem_cons, List.mem_map] at hm
    obtain rfl | ⟨ref, -, rfl⟩ := hm
    · dsimp only at hsymbol
      unfold targetMark at hsymbol
      split_ifs at hsymbol
      · cases hsymbol
        exact piece_ofString "×" (by decide)
      · cases hsymbol
        exact piece_ofString "⊕" (by decide)
    · cases hsymbol
  | rotation =>
    cases List.mem_singleton.mp hm
    cases hsymbol
  | init =>
    cases List.mem_singleton.mp hm
    cases hsymbol
  | comment text labels =>
    obtain ⟨label, -, rfl⟩ := List.mem_map.mp hm
    cases hsymbol
  | call call =>
    simp only [marks, controlMarks, List.mem_append, List.mem_map] at hm
    obtain ⟨w, -, rfl⟩ | ⟨ref, -, rfl⟩ := hm
    · cases hsymbol
    · cases hsymbol

theorem Mark.Stems.fits (h : Stems gates mark) (hgates : ∀ g ∈ gates, g.Lacks newline) : mark.Fits := by
  have hlacks := h.lacks (by decide) hgates
  have hpiece (symbol : Bytes) (hsymbol : mark = .target symbol) : Piece 1 symbol := by
    cases h with
    | painted hg hm => exact piece_target hm hsymbol
    | _ => cases hsymbol
  cases mark with
  | target symbol => exact hpiece symbol rfl
  | box text isCall => exact hlacks
  | label text => exact hlacks
  | _ => trivial

theorem length_wireLabel_le {w : Wire} (hw : w ∈ c.wires) : (c.wireLabel w).length ≤ c.labelWidth :=
  le_foldl_max.mpr ⟨_, List.mem_cons_of_mem _ (List.mem_map_of_mem hw), Nat.le_refl _⟩

theorem piece_headerLine (c : Circuit) (shown : Nat) :
    Piece (c.labelWidth + 2 + 11 * shown) (headerLine .plain c shown) := by
  have hnumbers : Piece (cellWidth * (List.range shown).length)
      ((List.range shown).flatMap fun i => centred (Bytes.ofNat i) cellWidth) :=
    Piece.flatMap fun i _ => piece_centred (Bytes.allDigits_ofNat i).visible.piece cellWidth
  rw [List.length_range] at hnumbers
  exact (piece_spaces _).append hnumbers

theorem piece_parts {rowCells : List Cell} (part : Bytes × Bytes × Bytes → Bytes)
    (h : ∀ cell ∈ rowCells, Piece cellWidth (part (cell.lines .plain))) :
    Piece (11 * rowCells.length) ((rowCells.map (Cell.lines .plain)).flatMap part) := by
  rw [List.flatMap_map]
  exact Piece.flatMap h

theorem pieces_rowLines {rowCells : List Cell} {w : Wire} (hw : w ∈ c.wires)
    (hcells : ∀ cell ∈ rowCells, cell.mark.Fits) :
    ∀ l ∈ rowLines .plain c c.labelWidth w rowCells, Piece (c.labelWidth + 2 + 11 * rowCells.length) l := by
  have hlabel := (visible_wireLabel c w).piece.append (piece_spaces (c.labelWidth - (c.wireLabel w).length))
  rw [Nat.add_sub_cancel' (length_wireLabel_le hw)] at hlabel
  intro l hl
  simp only [rowLines, Palette.paint, List.mem_cons, List.not_mem_nil, or_false] at hl
  rcases hl with rfl | rfl | rfl
  · exact (piece_spaces _).append (piece_parts _ fun cell hcell => (Cell.pieces_lines (hcells cell hcell)).1)
  · exact (hlabel.append (piece_dashes 2)).append
      (piece_parts _ fun cell hcell => (Cell.pieces_lines (hcells cell hcell)).2.1)
  · exact (piece_spaces _).append (piece_parts _ fun cell hcell => (Cell.pieces_lines (hcells cell hcell)).2.2)

def wireLines (c : Circuit) (shown : Nat) : List Bytes :=
  headerLine .plain c shown :: c.wires.zipIdx.flatMap fun (w, r) =>
    rowLines .plain c c.labelWidth w ((cells c shown).map fun cells => (cells[r]?).getD .blank)

def hiddenLines (hidden : Nat) : List Bytes := if hidden = 0 then [] else [hiddenLine .plain hidden]

theorem length_wireLines (c : Circuit) (shown : Nat) : (wireLines c shown).length = 1 + 3 * c.wires.length := by
  have hthree (p : Wire × Nat) : (rowLines .plain c c.labelWidth p.1
      ((cells c shown).map fun cells => (cells[p.2]?).getD .blank)).length = 3 := rfl
  simp only [wireLines, List.length_cons, List.length_flatMap, hthree, List.map_const', List.sum_replicate_nat,
    List.length_zipIdx]
  omega

theorem length_row (c : Circuit) {shown : Nat} (hshown : shown ≤ c.layout.length) (r : Nat) :
    ((cells c shown).map fun cells => (cells[r]?).getD .blank).length = shown := by
  simp [cells, hshown]

theorem fits_row (hsingle : ∀ g ∈ c.gates, g.Lacks newline) (shown r : Nat) :
    ∀ cell ∈ (cells c shown).map fun cells => (cells[r]?).getD .blank, cell.mark.Fits := fun cell hcell =>
  (stems_row c shown r cell hcell).fits hsingle

theorem pieces_wireLines {shown : Nat} (hshown : shown ≤ c.layout.length) (hsingle : ∀ g ∈ c.gates, g.Lacks newline) :
    ∀ l ∈ wireLines c shown, Piece (c.labelWidth + 2 + 11 * shown) l := by
  intro l hl
  obtain rfl | hl := List.mem_cons.mp hl
  · exact piece_headerLine c shown
  · obtain ⟨⟨w, r⟩, hw, hl⟩ := List.mem_flatMap.mp hl
    rw [← length_row c hshown r]
    exact pieces_rowLines (List.fst_mem_of_mem_zipIdx hw) (fits_row hsingle shown r) l hl

/-- The text of a plain drawing in lines: `rows` of one width, and `more` where columns are hidden. -/
structure Rectangle (o : Options) (c : Circuit) (rows more : List Bytes) (width shown : Nat) : Prop where
  lines : Bytes.lines (text o c) = rows ++ more ++ [[]]
  height : rows.length = 1 + 3 * c.mentionedWires.toFinset.card
  even : ∀ row ∈ rows, charCount row = width + 2 + 11 * shown
  labels : IsGreatest {n | n = 5 ∨ ∃ w ∈ c.mentionedWires, n = charCount (c.wireLabel w)} width
  columns : shown = if 0 < o.maxColumns then min o.maxColumns.toNat c.layout.length else c.layout.length
  hidden : more.length = if shown < c.layout.length then 1 else 0

theorem length_hiddenLines (hidden : Nat) : (hiddenLines hidden).length = if hidden = 0 then 0 else 1 := by
  unfold hiddenLines
  split <;> rfl

theorem newline_hiddenLines {hidden : Nat} {l : Bytes} (hl : l ∈ hiddenLines hidden) : newline ∉ l := by
  unfold hiddenLines at hl
  split at hl
  · cases hl
  · cases List.mem_singleton.mp hl
    have hnumber := (Bytes.allDigits_ofNat hidden).visible.piece
    exact (((piece_ofString "  ▶ " (by decide)).append hnumber).append
      (piece_ofString " more columns" (by decide))).single

theorem isGreatest_labelWidth (c : Circuit) :
    IsGreatest {n | n = 5 ∨ ∃ w ∈ c.mentionedWires, n = charCount (c.wireLabel w)} c.labelWidth := by
  have hcount (w : Wire) : charCount (c.wireLabel w) = (c.wireLabel w).length := (visible_wireLabel c w).piece.count
  constructor
  · obtain ⟨n, hn, hle⟩ := le_foldl_max.mp (Nat.le_refl c.labelWidth)
    have heq : c.labelWidth = n := Nat.le_antisymm hle (le_foldl_max.mpr ⟨n, hn, Nat.le_refl n⟩)
    rw [heq]
    obtain rfl | hn := List.mem_cons.mp hn
    · exact .inl rfl
    · obtain ⟨w, hw, rfl⟩ := List.mem_map.mp hn
      exact .inr ⟨w, Circuit.mem_wires.mp hw, (hcount w).symm⟩
  · rintro n (rfl | ⟨w, hw, rfl⟩)
    · exact le_foldl_max.mpr ⟨_, List.mem_cons_self, Nat.le_refl _⟩
    · rw [hcount]
      exact length_wireLabel_le (Circuit.mem_wires.mpr hw)

theorem shownColumns_eq (o : Options) (n : Nat) :
    o.shownColumns n = if 0 < o.maxColumns then min o.maxColumns.toNat n else n := by
  unfold Options.shownColumns
  split_ifs <;> omega

theorem shownColumns_le (o : Options) (n : Nat) : o.shownColumns n ≤ n := by
  rw [shownColumns_eq]
  split_ifs <;> omega

theorem card_mentionedWires (c : Circuit) : c.mentionedWires.toFinset.card = c.wires.length := by
  rw [← List.toFinset_card_of_nodup (Circuit.wires_nodup c)]
  congr 1
  ext w
  rw [List.mem_toFinset, List.mem_toFinset, Circuit.mem_wires]

theorem lines_text (o : Options) (c : Circuit) (hplain : o.palette = .plain) (hwires : c.mentionedWires ≠ [])
    (hsingle : ∀ g ∈ c.gates, g.Lacks newline) :
    Bytes.lines (text o c) = wireLines c (o.shownColumns c.layout.length) ++
      hiddenLines (c.layout.length - o.shownColumns c.layout.length) ++ [[]] := by
  have hsome : c.wires ≠ [] := by
    obtain ⟨w, hw⟩ := List.exists_mem_of_ne_nil _ hwires
    exact List.ne_nil_of_mem (Circuit.mem_wires.mpr hw)
  rw [text, lines_of_cells]
  dsimp only
  rw [if_neg hsome, hplain]
  change Bytes.lines ((wireLines c _ ++ hiddenLines _).flatMap (· ++ [newline])) = _
  refine Bytes.lines_of_closed fun l hl => ?_
  rcases List.mem_append.mp hl with hl | hl
  · exact (pieces_wireLines (shownColumns_le o _) hsingle l hl).single
  · exact newline_hiddenLines hl

/-- A circuit with a wire is drawn as a rectangle, whatever its names and labels are as long as they have no newline. -/
theorem rectangle_of_text (o : Options) (c : Circuit) (hplain : o.palette = .plain) (hwires : c.mentionedWires ≠ [])
    (hsingle : ∀ g ∈ c.gates, g.Lacks newline) : ∃ rows more width shown, Rectangle o c rows more width shown := by
  have hshown := shownColumns_le o c.layout.length
  have hpieces := pieces_wireLines hshown hsingle
  refine ⟨wireLines c (o.shownColumns c.layout.length), hiddenLines (c.layout.length - o.shownColumns c.layout.length),
    c.labelWidth, o.shownColumns c.layout.length, lines_text o c hplain hwires hsingle, ?_,
    fun row hrow => (hpieces row hrow).count, isGreatest_labelWidth c, shownColumns_eq o _, ?_⟩
  · rw [length_wireLines, card_mentionedWires]
  · rw [length_hiddenLines]
    split_ifs <;> omega

theorem rectangle_of_strayBytes :
    let o : Options := ⟨.plain, 1⟩
    let gates : List Gate := [.call ⟨3, [0xE2, 0x94, 0x82, 0xE2, 0x94], [], true, [0], [7], .none⟩,
      .comment [] [⟨7, "a label that is too long"⟩]]
    let c : Circuit := ⟨[⟨0, .qbit⟩], gates, [⟨7, .cbit⟩]⟩
    (o.palette = .plain ∧ c.mentionedWires ≠ [] ∧ ∀ g ∈ c.gates, g.Lacks newline) ∧
      ∃ rows more width shown, Rectangle o c rows more width shown := by
  intro o gates c
  have hwires : c.mentionedWires ≠ [] := by decide
  have hsingle : ∀ g ∈ c.gates, g.Lacks newline := by decide +kernel
  exact ⟨⟨rfl, hwires, hsingle⟩, rectangle_of_text o c rfl hwires hsingle⟩

end Drawing

end CircuitDesk
