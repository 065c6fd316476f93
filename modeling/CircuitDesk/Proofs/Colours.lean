import CircuitDesk.Proofs.Marks
import CircuitDesk.Proofs.Pieces

namespace CircuitDesk

namespace Palette

open Bytes (isDigit newline)

variable {s t a b painted painted' : Bytes} {palette : Palette}

def escape : UInt8 := 27

def tab : UInt8 := 9

/-- How many bytes behind its escape a colour sequence `ESC [ … m` has, or zero where there is none. -/
def sequenceLength : Bytes → Nat
  | 91 :: rest =>
    let codes := rest.takeWhile fun b => isDigit b || b = 59
    if rest[codes.length]? = some 109 then codes.length + 2 else 0
  | _ => 0

def withoutColours : Bytes → Bytes
  | [] => []
  | b :: rest =>
    if b = escape ∧ 0 < sequenceLength rest then withoutColours (rest.drop (sequenceLength rest))
    else b :: withoutColours rest
termination_by t => t.length
decreasing_by
  all_goals simp only [List.length_drop, List.length_cons]
  all_goals omega

theorem withoutColours_append (hs : escape ∉ s) (rest : Bytes) :
    withoutColours (s ++ rest) = s ++ withoutColours rest := by
  induction s with
  | nil => rfl
  | cons b s ih =>
    obtain ⟨hb, hs⟩ : escape ≠ b ∧ escape ∉ s := by simpa using hs
    rw [List.cons_append, withoutColours, if_neg fun h => hb h.1.symm, ih hs, List.cons_append]

theorem sequenceLength_codes (p : Paint) (rest : Bytes) :
    sequenceLength (91 :: (p.codes ++ 109 :: rest)) = p.codes.length + 2 := by
  have hcodes : (p.codes.all fun b => isDigit b || b = 59) = true := by cases p <;> decide
  have hrun : ((p.codes ++ 109 :: rest).takeWhile fun b => isDigit b || b = 59) = p.codes := by
    rw [List.takeWhile_append_of_pos (List.all_eq_true.mp hcodes), List.takeWhile_cons_of_neg (by decide),
      List.append_nil]
  rw [sequenceLength, hrun]
  exact if_pos (by simp)

theorem withoutColours_codes (p : Paint) (rest : Bytes) :
    withoutColours (Bytes.ofString "\x1b[" ++ p.codes ++ "m" ++ rest) = withoutColours rest := by
  have hbytes : Bytes.ofString "\x1b[" ++ p.codes ++ "m" ++ rest = escape :: 91 :: (p.codes ++ 109 :: rest) := by
    rw [List.append_assoc, List.append_assoc]
    rfl
  rw [hbytes, withoutColours, sequenceLength_codes, if_pos ⟨rfl, by omega⟩]
  congr 1
  simp

theorem withoutColours_reset (rest : Bytes) :
    withoutColours (Bytes.ofString "\x1b[0m" ++ rest) = withoutColours rest := by
  have hbytes : Bytes.ofString "\x1b[0m" ++ rest = escape :: 91 :: 48 :: 109 :: rest := rfl
  have hlength : sequenceLength (91 :: 48 :: 109 :: rest) = 3 := by simp [sequenceLength, isDigit]
  rw [hbytes, withoutColours, hlength, if_pos ⟨rfl, by decide⟩]
  rfl

example : withoutColours "\x1b[1;38ma\x1b[0m\x1b[1;b" = Bytes.ofString "a\x1b[1;b" := by cbv

theorem mem_expandTabs {x : UInt8} (hx : x ≠ 32) (h : x ∈ expandTabs t) : x ∈ t := by
  obtain ⟨b, hb, hmem⟩ := List.mem_flatMap.mp h
  split at hmem
  · exact absurd (List.eq_of_mem_replicate hmem) hx
  · rwa [List.mem_singleton.mp hmem]

theorem expandTabs_of_no_tab (h : tab ∉ t) : expandTabs t = t := by
  have heach : ∀ b ∈ t, (if b = 9 then Bytes.spaces 4 else [b]) = [b] := fun b hb =>
    if_neg fun htab : b = tab => h (htab ▸ hb)
  rw [expandTabs, List.flatMap_congr heach, List.flatMap_singleton']

theorem dropReturns_of_single (h : newline ∉ t) : dropReturns t = t := by
  induction t using dropReturns.induct with
  | case1 rest => simp [newline] at h
  | case2 b rest hnot ih =>
    have hrest : newline ∉ rest := fun hmem => h (List.mem_cons_of_mem b hmem)
    rw [dropReturns.eq_2 b rest hnot, ih hrest]
  | case3 => rfl

theorem equalWidths_singleton (l : Bytes) : equalWidths [l] = [l] := by simp [equalWidths, Bytes.spaces]

theorem layOut_of_single (decorate : Bytes → Bytes) (h : newline ∉ t) :
    layOut decorate t = decorate (expandTabs t) := by
  have hsingle : newline ∉ expandTabs t := fun hmem => h (mem_expandTabs (by decide) hmem)
  rw [layOut, dropReturns_of_single hsingle, Bytes.lines_of_single hsingle, List.map_singleton, equalWidths_singleton]
  rfl

theorem paint_styled (p : Paint) (h : newline ∉ t) : paint .styled p t = expandTabs t := layOut_of_single id h

theorem paint_coloured (p : Paint) (h : newline ∉ t) :
    paint .coloured p t = Bytes.ofString "\x1b[" ++ p.codes ++ "m" ++ expandTabs t ++ "\x1b[0m" :=
  layOut_of_single (colourLine p) h

/-- `painted` shows the text with its tabs expanded, in front of whatever follows. -/
def Tints (text painted : Bytes) : Prop :=
  ∀ rest, withoutColours (painted ++ rest) = expandTabs text ++ withoutColours rest

theorem tints_of_clear (hescape : escape ∉ s) (htab : tab ∉ s) : Tints s s := fun rest => by
  rw [withoutColours_append hescape, expandTabs_of_no_tab htab]

theorem Tints.append (ha : Tints a painted) (hb : Tints b painted') : Tints (a ++ b) (painted ++ painted') := by
  intro rest
  have hexpand : expandTabs (a ++ b) = expandTabs a ++ expandTabs b := List.flatMap_append
  rw [List.append_assoc, ha, hb, hexpand, List.append_assoc]

theorem Tints.flatMap {α : Type} {f g : α → Bytes} {as : List α} (h : ∀ a ∈ as, Tints (f a) (g a)) :
    Tints (as.flatMap f) (as.flatMap g) := by
  induction as with
  | nil => exact tints_of_clear (by simp) (by simp)
  | cons a as ih =>
    obtain ⟨ha, has⟩ := List.forall_mem_cons.mp h
    exact ha.append (ih has)

theorem Tints.times (h : Tints a painted) (n : Nat) : Tints (Bytes.times n a) (Bytes.times n painted) := by
  have htimes : Tints ((List.range n).flatMap fun _ => a) ((List.range n).flatMap fun _ => painted) :=
    Tints.flatMap fun _ _ => h
  simpa only [Bytes.times, List.flatMap_def, List.map_const', List.length_range] using htimes

theorem tints_paint (hpalette : palette ≠ .plain) (p : Paint) (hescape : escape ∉ t) (hsingle : newline ∉ t) :
    Tints t (palette.paint p t) := by
  have hclear : escape ∉ expandTabs t := fun hmem => hescape (mem_expandTabs (by decide) hmem)
  intro rest
  cases palette with
  | plain => exact absurd rfl hpalette
  | styled => rw [paint_styled p hsingle, withoutColours_append hclear]
  | coloured =>
    rw [paint_coloured p hsingle, List.append_assoc, List.append_assoc, withoutColours_codes,
      withoutColours_append hclear, withoutColours_reset]

end Palette

namespace Drawing

open Bytes (IsControl NoControls newline)
open Palette (Tints escape tab tints_of_clear tints_paint expandTabs withoutColours)

variable {c : Circuit} {cell : Cell} {palette : Palette} {s t : Bytes}

theorem tints_of_noControls (h : NoControls s) : Tints s s :=
  tints_of_clear (h.lacks (by decide)) (h.lacks (by decide))

theorem tints_spaces (n : Nat) : Tints (Bytes.spaces n) (Bytes.spaces n) :=
  tints_of_noControls (Bytes.noControls_spaces n)

theorem tints_dashes (n : Nat) : Tints (dashes n) (dashes n) := by
  have hdash : Tints "─" "─" := tints_of_noControls (by decide)
  exact hdash.times n

theorem tints_dashed (h : Tints s t) (n : Nat) : Tints (dashed n s) (dashed n t) :=
  ((tints_dashes (n / 2)).append h).append (tints_dashes (n - n / 2 - 1))

theorem tints_gapLine (linked : Bool) : Tints (gapLine linked) (gapLine linked) := by
  cases linked with
  | false => exact tints_spaces cellWidth
  | true => exact tints_of_noControls (by decide)

theorem tints_paint_of_noControls (hpalette : palette ≠ .plain) (p : Paint) (h : NoControls t) :
    Tints t (palette.paint p t) :=
  tints_paint hpalette p (h.lacks (by decide)) (h.lacks (by decide))

theorem not_mem_boxed {b : UInt8} (hb : IsControl b) (h : b ∉ t) :
    b ∉ Bytes.ofString "┤" ++ centred t nameWidth ++ "├" := by
  have hleft : NoControls "┤" := by decide
  have hright : NoControls "├" := by decide
  simp only [List.mem_append, not_or]
  exact ⟨⟨hleft.lacks hb, not_mem_centred hb h nameWidth⟩, hright.lacks hb⟩

theorem tints_lines (hpalette : palette ≠ .plain) (hescape : cell.mark.Lacks escape)
    (hsingle : cell.mark.Lacks newline) :
    Tints (cell.lines .plain).1 (cell.lines palette).1 ∧ Tints (cell.lines .plain).2.1 (cell.lines palette).2.1 ∧
      Tints (cell.lines .plain).2.2 (cell.lines palette).2.2 := by
  obtain ⟨mark, above, below⟩ := cell
  have htop := tints_gapLine above
  have hbottom := tints_gapLine below
  cases mark with
  | wire => exact ⟨htop, tints_dashes cellWidth, hbottom⟩
  | crossing => exact ⟨htop, tints_dashed (tints_of_noControls (by decide)) cellWidth, hbottom⟩
  | control positive =>
    have hsymbol : Tints (controlSymbol positive) (palette.paint .gate (controlSymbol positive)) := by
      cases positive <;> exact tints_paint_of_noControls hpalette .gate (by decide)
    exact ⟨htop, tints_dashed hsymbol cellWidth, hbottom⟩
  | target symbol => exact ⟨htop, tints_dashed (tints_paint hpalette .gate hescape hsingle) cellWidth, hbottom⟩
  | init value =>
    have htext : Tints (initText value) (palette.paint .init (initText value)) := by
      cases value <;> exact tints_paint_of_noControls hpalette .init (by decide)
    exact ⟨htop, ((tints_spaces 2).append htext).append (tints_dashes _), hbottom⟩
  | label text =>
    have htext := tints_paint hpalette .comment (not_mem_cut (by decide) hescape (cellWidth - 2))
      (not_mem_cut (by decide) hsingle (cellWidth - 2))
    exact ⟨htop, ((tints_dashes 1).append htext).append (tints_dashes _), hbottom⟩
  | box text isCall =>
    have hname := tints_paint hpalette (if isCall then .call else .gate) (not_mem_boxed (by decide) hescape)
      (not_mem_boxed (by decide) hsingle)
    have hlid : NoControls
        (Bytes.ofString "┌" ++ (if above then dashed nameWidth "┴" else dashes nameWidth) ++ "┐") := by
      cases above <;> decide
    have hbase : NoControls
        (Bytes.ofString "└" ++ (if below then dashed nameWidth "┬" else dashes nameWidth) ++ "┘") := by
      cases below <;> decide
    exact ⟨((tints_spaces 2).append (tints_paint_of_noControls hpalette _ hlid)).append (tints_spaces 2),
      ((tints_dashes 2).append hname).append (tints_dashes 2),
      ((tints_spaces 2).append (tints_paint_of_noControls hpalette _ hbase)).append (tints_spaces 2)⟩

theorem tints_line (h : Tints s t) : Tints (s ++ [newline]) (t ++ [newline]) :=
  h.append (tints_of_clear (by decide) (by decide))

theorem tints_headerLine (hpalette : palette ≠ .plain) (c : Circuit) (shown : Nat) :
    Tints (headerLine .plain c shown) (headerLine palette c shown) := by
  have hnumber (i : Nat) : NoControls (Bytes.ofNat i) := (Bytes.allDigits_ofNat i).visible.noControls
  refine (tints_spaces _).append (Tints.flatMap fun i _ => tints_paint hpalette .dim ?_ ?_)
  · exact not_mem_centred (by decide) ((hnumber i).lacks (by decide)) cellWidth
  · exact not_mem_centred (by decide) ((hnumber i).lacks (by decide)) cellWidth

theorem tints_hiddenLine (hpalette : palette ≠ .plain) (hidden : Nat) :
    Tints (hiddenLine .plain hidden) (hiddenLine palette hidden) := by
  have hfront : NoControls "  ▶ " := by decide
  have hback : NoControls " more columns" := by decide
  exact tints_paint_of_noControls hpalette .dim
    ((hfront.append (Bytes.allDigits_ofNat hidden).visible.noControls).append hback)

theorem tints_rowLines (hpalette : palette ≠ .plain) (c : Circuit) (width : Nat) (w : Wire) {rowCells : List Cell}
    (hescape : ∀ cell ∈ rowCells, cell.mark.Lacks escape) (hsingle : ∀ cell ∈ rowCells, cell.mark.Lacks newline) :
    Tints ((rowLines .plain c width w rowCells).flatMap (· ++ [newline]))
      ((rowLines palette c width w rowCells).flatMap (· ++ [newline])) := by
  have hcells := fun cell hcell => tints_lines hpalette (hescape cell hcell) (hsingle cell hcell)
  have htop := Tints.flatMap fun cell hcell => (hcells cell hcell).1
  have hmiddle := Tints.flatMap fun cell hcell => (hcells cell hcell).2.1
  have hbottom := Tints.flatMap fun cell hcell => (hcells cell hcell).2.2
  have hpadded := (visible_wireLabel c w).noControls.append
    (Bytes.noControls_spaces (width - (c.wireLabel w).length))
  have hlabel := tints_paint_of_noControls hpalette (if c.isClassical w then .cbit else .qbit) hpadded
  simp only [rowLines, List.flatMap_cons, List.flatMap_nil, List.append_nil, List.flatMap_map]
  exact (tints_line ((tints_spaces _).append htop)).append
    ((tints_line ((hlabel.append (tints_dashes 2)).append hmiddle)).append
      (tints_line ((tints_spaces _).append hbottom)))

theorem lacks_row {b : UInt8} (hb : IsControl b) (hgates : ∀ g ∈ c.gates, g.Lacks b) (shown r : Nat) :
    ∀ cell ∈ (cells c shown).map fun cells => (cells[r]?).getD .blank, cell.mark.Lacks b := fun cell hcell =>
  (stems_row c shown r cell hcell).lacks hb hgates

theorem tints_text (o : Options) (c : Circuit) (hpalette : o.palette ≠ .plain)
    (hescape : ∀ g ∈ c.gates, g.Lacks escape) (hsingle : ∀ g ∈ c.gates, g.Lacks newline) :
    Tints (text { o with palette := .plain } c) (text o c) := by
  have hshown : Options.shownColumns { o with palette := .plain } = o.shownColumns := rfl
  have hend : Tints [] [] := tints_of_clear (by simp) (by simp)
  rw [text, text, lines_of_cells, lines_of_cells]
  dsimp only
  rw [hshown]
  generalize o.shownColumns c.layout.length = shown
  by_cases hwires : c.wires = []
  · rw [if_pos hwires, if_pos hwires, List.flatMap_cons, List.flatMap_cons]
    exact (tints_line (tints_paint_of_noControls hpalette .dim (by decide))).append hend
  · have hheader := tints_line (tints_headerLine hpalette c shown)
    have hrows := Tints.flatMap fun p (_ : p ∈ c.wires.zipIdx) =>
      tints_rowLines hpalette c c.labelWidth p.1 (lacks_row (by decide) hescape shown p.2)
        (lacks_row (by decide) hsingle shown p.2)
    rw [if_neg hwires, if_neg hwires]
    simp only [List.flatMap_cons, List.flatMap_append, List.flatMap_assoc]
    refine (hheader.append hrows).append ?_
    split
    · exact hend
    · simpa using tints_line (tints_hiddenLine hpalette (c.layout.length - shown))

/-- Without its colour sequences a drawing is the plain one with its tabs expanded. -/
theorem withoutColours_text (o : Options) (c : Circuit) (hpalette : o.palette ≠ .plain)
    (hescape : ∀ g ∈ c.gates, g.Lacks escape) (hsingle : ∀ g ∈ c.gates, g.Lacks newline) :
    withoutColours (text o c) = expandTabs (text { o with palette := .plain } c) := by
  have htext := tints_text o c hpalette hescape hsingle []
  rwa [List.append_nil, withoutColours, List.append_nil] at htext

theorem withoutColours_text_of_tabs :
    let o : Options := ⟨.coloured, 1⟩
    let gates : List Gate := [.comment [] [⟨0, "a\tlabel that is cut"⟩, ⟨7, []⟩],
      .call ⟨3, "f\t[0m", [], true, [0], [7], .none⟩]
    let c : Circuit := ⟨[⟨0, .qbit⟩], gates, [⟨7, .cbit⟩]⟩
    (o.palette ≠ .plain ∧ (∀ g ∈ c.gates, g.Lacks escape) ∧ ∀ g ∈ c.gates, g.Lacks newline) ∧
      withoutColours (text o c) = expandTabs (text ⟨.plain, 1⟩ c) := by
  intro o gates c
  have hescape : ∀ g ∈ c.gates, g.Lacks escape := by decide +kernel
  have hsingle : ∀ g ∈ c.gates, g.Lacks newline := by decide +kernel
  exact ⟨⟨by decide, hescape, hsingle⟩, withoutColours_text o c (by decide) hescape hsingle⟩

end Drawing

end CircuitDesk
