import Mathlib.Logic.Equiv.Basic
import CircuitDesk.Drawing
import CircuitDesk.Proofs.Painting
import CircuitDesk.Proofs.Schedule

namespace CircuitDesk

variable {row : Wire → Nat} {f : Frontier} {s t : Span}

theorem getElem?_exchange {α : Type} (before later : List α) (a b : α) (i : Nat) :
    (before ++ b :: a :: later)[Equiv.swap before.length (before.length + 1) i]? = (before ++ a :: b :: later)[i]? := by
  rw [Equiv.swap_apply_def]
  split_ifs with hfirst hsecond
  · subst hfirst
    simp
  · subst hsecond
    simp
  · rcases Nat.lt_trichotomy i before.length with hlt | heq | hgt
    · rw [List.getElem?_append_left hlt, List.getElem?_append_left hlt]
    · exact absurd heq hfirst
    · obtain ⟨k, rfl⟩ : ∃ k, i = before.length + (k + 2) := ⟨i - before.length - 2, by omega⟩
      rw [List.getElem?_append_right (by omega), List.getElem?_append_right (by omega), Nat.add_sub_cancel_left]
      rfl

namespace Frontier

theorem column_take_of_apart (hapart : ∀ r, ¬ (s.contains r = true ∧ t.contains r = true)) (n : Nat) :
    (f.take n (some s)).column (some t) = f.column (some t) := by
  have hfree : t.rows.map (f.take n (some s)).free = t.rows.map f.free := by
    refine List.map_congr_left fun r hr => ?_
    exact if_neg fun hs => hapart r ⟨hs, Span.mem_rows.mp hr⟩
  rw [column, column, hfree]
  rfl

theorem take_comm_of_apart (hapart : ∀ r, ¬ (s.contains r = true ∧ t.contains r = true)) (m n : Nat) :
    (f.take m (some s)).take n (some t) = (f.take n (some t)).take m (some s) := by
  have hfree (r : Nat) : ((f.take m (some s)).take n (some t)).free r =
      ((f.take n (some t)).take m (some s)).free r := by
    have hr := hapart r
    simp only [take]
    split_ifs <;> simp_all
  simp only [take, Nat.max_assoc, Nat.max_comm (m + 1)]
  congr 1
  funext r
  exact hfree r

end Frontier

theorem assignColumns_exchange (hapart : ∀ r, ¬ (s.contains r = true ∧ t.contains r = true))
    (before later : List (Option Span)) :
    ∃ cols m n cols', cols.length = before.length ∧
      assignColumns f (before ++ some s :: some t :: later) = cols ++ m :: n :: cols' ∧
      assignColumns f (before ++ some t :: some s :: later) = cols ++ n :: m :: cols' := by
  have hapart' (r : Nat) (h : t.contains r = true ∧ s.contains r = true) : False := hapart r h.symm
  let g := f.after before
  let m := g.column (some s)
  let n := g.column (some t)
  refine ⟨assignColumns f before, m, n, assignColumns ((g.take m (some s)).take n (some t)) later,
    length_assignColumns f before, ?_, ?_⟩
  · rw [assignColumns_append, assignColumns, assignColumns, Frontier.column_take_of_apart hapart]
  · rw [assignColumns_append, assignColumns, assignColumns, Frontier.column_take_of_apart hapart',
      Frontier.take_comm_of_apart hapart']

namespace Drawing

def cells (c : Circuit) (shown : Nat) : List (List Cell) :=
  (c.layout.take shown).map fun col => column (rowAmong c.wires) c.wires.length (col.filterMap (c.gates[·]?))

theorem lines_of_cells (o : Options) (c : Circuit) :
    lines o c =
      let shown := o.shownColumns c.layout.length
      if c.wires = [] then [o.palette.paint .dim "(no wires)"]
      else
        headerLine o.palette c shown ::
          (c.wires.zipIdx.flatMap fun (w, r) =>
            rowLines o.palette c c.labelWidth w ((cells c shown).map fun cells => (cells[r]?).getD .blank)) ++
          if c.layout.length - shown = 0 then []
          else [hiddenLine o.palette (c.layout.length - shown)] := rfl

end Drawing

namespace Circuit

variable {c c' : Circuit} {σ : Equiv.Perm Nat} {i j k n : Nat} {g h : Gate}

theorem eq_of_occupied {col : List Nat} (hcol : col ∈ c.layout) (hi : i ∈ col) (hj : j ∈ col)
    (hg : c.gates[i]? = some g) (hh : c.gates[j]? = some h) {r : Nat} (hgr : g.Occupies c.row r)
    (hhr : h.Occupies c.row r) : i = j := by
  obtain ⟨k, hk⟩ := List.getElem?_of_mem hcol
  obtain ⟨-, rfl⟩ := getElem?_layout.mp hk
  rw [mem_numbersIn] at hi hj
  rcases Nat.lt_trichotomy i j with hij | hij | hij
  · exact absurd ⟨g, h, hg, hh, .inr (.inr ⟨r, hgr, hhr⟩)⟩ (not_conflict_of_column hi hj hij)
  · exact hij
  · exact absurd ⟨h, g, hh, hg, .inr (.inr ⟨r, hhr, hgr⟩)⟩ (not_conflict_of_column hj hi hij)

theorem gates_apart {col : List Nat} (hcol : col ∈ c.layout) :
    ∀ g ∈ col.filterMap (c.gates[·]?), ∀ h ∈ col.filterMap (c.gates[·]?),
      g = h ∨ ∀ r, ¬ (g.Occupies c.row r ∧ h.Occupies c.row r) := by
  intro g hg h hh
  obtain ⟨i, hi, hg⟩ := List.mem_filterMap.mp hg
  obtain ⟨j, hj, hh⟩ := List.mem_filterMap.mp hh
  by_cases hij : i = j
  · subst hij
    exact .inl (Option.some.inj (hg.symm.trans hh))
  · exact .inr fun r hr => hij (eq_of_occupied hcol hi hj hg hh hr.1 hr.2)

/-- The second circuit has the gates of the first in another order, and each in the same column. -/
structure Rearranged (σ : Equiv.Perm Nat) (c c' : Circuit) : Prop where
  declared : c' = { c with gates := c'.gates }
  wires : c'.wires = c.wires
  gates : ∀ i : Nat, c'.gates[σ i]? = c.gates[i]?
  columns : ∀ i : Nat, c'.gateColumns[σ i]? = c.gateColumns[i]?

namespace Rearranged

theorem columnCount_eq (hr : Rearranged σ c c') : columnCount c'.gateColumns = columnCount c.gateColumns := by
  refine eq_of_forall_lt_iff fun k => ?_
  have hmem (m : Nat) : m ∈ c'.gateColumns ↔ m ∈ c.gateColumns := by
    rw [List.mem_iff_getElem?, List.mem_iff_getElem?, σ.surjective.exists]
    simp only [hr.columns]
  simp only [lt_columnCount, hmem]

theorem numbersIn_perm (hr : Rearranged σ c c') (k : Nat) :
    (numbersIn c'.gateColumns k).Perm ((numbersIn c.gateColumns k).map σ) := by
  have hnodup (cols : List Nat) : (numbersIn cols k).Nodup := (numbersIn_ascending cols k).imp Nat.ne_of_lt
  rw [List.perm_ext_iff_of_nodup (hnodup _) ((hnodup _).map σ.injective)]
  intro i
  obtain ⟨j, rfl⟩ := σ.surjective i
  rw [mem_numbersIn, hr.columns, List.mem_map_of_injective σ.injective, mem_numbersIn]

theorem layout_eq (hr : Rearranged σ c c') :
    c'.layout = c.layout.map fun col => (col.map σ).mergeSort := by
  rw [Circuit.layout_eq, Circuit.layout_eq, hr.columnCount_eq, List.map_map]
  refine List.map_congr_left fun k _ => ?_
  have hsorted := ascending_mergeSort (fun _ _ _ => Nat.le_trans) Nat.le_total ((numbersIn c.gateColumns k).map σ)
  refine List.Perm.eq_of_pairwise (fun i j _ _ => Nat.le_antisymm) ?_ hsorted ?_
  · exact (numbersIn_ascending _ k).imp Nat.le_of_lt
  · exact (hr.numbersIn_perm k).trans (List.mergeSort_perm _ _).symm

theorem gates_perm (hr : Rearranged σ c c') (col : List Nat) :
    ((col.map σ).mergeSort.filterMap (c'.gates[·]?)).Perm (col.filterMap (c.gates[·]?)) := by
  have hsorted := (List.mergeSort_perm (col.map σ) (fun i j => decide (i ≤ j))).filterMap (c'.gates[·]?)
  have hsame : (col.map σ).filterMap (c'.gates[·]?) = col.filterMap (c.gates[·]?) := by
    rw [List.filterMap_map]
    exact List.filterMap_congr fun i _ => hr.gates i
  rw [hsame] at hsorted
  exact hsorted

theorem cells_eq (hr : Rearranged σ c c') (shown : Nat) : Drawing.cells c' shown = Drawing.cells c shown := by
  rw [Drawing.cells, Drawing.cells, hr.wires, hr.layout_eq, ← List.map_take, List.map_map]
  refine List.map_congr_left fun col hcol => ?_
  exact (Drawing.column_perm _ (hr.gates_perm col).symm (gates_apart (List.mem_of_mem_take hcol))).symm

theorem wireLabel_eq (hr : Rearranged σ c c') : c'.wireLabel = c.wireLabel := by
  rw [hr.declared]
  rfl

theorem isClassical_eq (hr : Rearranged σ c c') : c'.isClassical = c.isClassical := by
  rw [hr.declared]
  rfl

theorem labelWidth_eq (hr : Rearranged σ c c') : c'.labelWidth = c.labelWidth := by
  rw [labelWidth, labelWidth, hr.wires, hr.wireLabel_eq]

theorem lines_eq (hr : Rearranged σ c c') (o : Drawing.Options) : Drawing.lines o c' = Drawing.lines o c := by
  have hlength : c'.layout.length = c.layout.length := by rw [hr.layout_eq, List.length_map]
  have hrow : Drawing.rowLines o.palette c' = Drawing.rowLines o.palette c := by
    funext n w cells
    rw [Drawing.rowLines, Drawing.rowLines, hr.wireLabel_eq, hr.isClassical_eq]
  have hheader : Drawing.headerLine o.palette c' = Drawing.headerLine o.palette c := by
    funext n
    rw [Drawing.headerLine, Drawing.headerLine, hr.labelWidth_eq]
  simp only [Drawing.lines_of_cells, hr.wires, hlength, hr.labelWidth_eq, hr.cells_eq, hrow, hheader]

end Rearranged

theorem rearranged_of_apart {before later : List Gate} (hgates : c.gates = before ++ g :: h :: later)
    (hg : ¬ g.Exclusive c.row) (hh : ¬ h.Exclusive c.row) (hapart : ∀ r, ¬ (g.Occupies c.row r ∧ h.Occupies c.row r)) :
    Rearranged (Equiv.swap before.length (before.length + 1)) c { c with gates := before ++ h :: g :: later } := by
  have hperm : (before ++ h :: g :: later).Perm c.gates := by
    rw [hgates]
    exact (List.Perm.swap g h later).append_left before
  have hwires := wires_of_perm (c := c) hperm
  refine ⟨rfl, hwires, fun i => ?_, fun i => ?_⟩
  · rw [hgates]
    exact getElem?_exchange before later g h i
  · obtain ⟨s, hs⟩ := Gate.exists_sharedSpan hg
    obtain ⟨t, ht⟩ := Gate.exists_sharedSpan hh
    have hst (r : Nat) : ¬ (s.contains r = true ∧ t.contains r = true) := by
      rw [← Gate.occupies_iff (Gate.span?_of_sharedSpan? hs), ← Gate.occupies_iff (Gate.span?_of_sharedSpan? ht)]
      exact hapart r
    obtain ⟨cols, m, n, cols', hlength, hcols, hcols'⟩ := assignColumns_exchange (f := .initial) hst
      (before.map (Gate.sharedSpan? c.row)) (later.map (Gate.sharedSpan? c.row))
    have hbefore : c.gateColumns = cols ++ m :: n :: cols' := by
      rw [← hcols, gateColumns, hgates, List.map_append, List.map_cons, List.map_cons, ← hs, ← ht]
      rfl
    have hafter : { c with gates := before ++ h :: g :: later }.gateColumns = cols ++ n :: m :: cols' := by
      rw [← hcols', gateColumns, hwires, List.map_append, List.map_cons, List.map_cons, ← hs, ← ht]
      rfl
    rw [hbefore, hafter, ← List.length_map (Gate.sharedSpan? c.row), ← hlength]
    exact getElem?_exchange cols cols' m n i

/-- Two neighbours that are not exclusive and have their ranges of rows apart can be exchanged. The drawing is the
same, and the columns hold the same gates under their new numbers. -/
theorem drawing_of_exchange (c : Circuit) (i : Nat) (g h : Gate) (hi : c.gates[i]? = some g)
    (hi' : c.gates[i + 1]? = some h) (hg : ¬ g.Exclusive c.row) (hh : ¬ h.Exclusive c.row)
    (hapart : ∀ r, ¬ (g.Occupies c.row r ∧ h.Occupies c.row r)) :
    let c' := { c with gates := (c.gates.set i h).set (i + 1) g }
    (∀ o, Drawing.text o c' = Drawing.text o c) ∧
      c'.layout = c.layout.map fun col => (col.map (Equiv.swap i (i + 1))).mergeSort := by
  obtain ⟨before, rest, hgates, rfl⟩ := exists_append_of_getElem? hi
  obtain ⟨later, rfl⟩ : ∃ later, rest = h :: later := by
    rw [hgates, List.getElem?_append_right (by omega), Nat.add_sub_cancel_left] at hi'
    cases rest with
    | nil => cases hi'
    | cons a later => exact ⟨later, by cases hi'; rfl⟩
  have hset : (c.gates.set before.length h).set (before.length + 1) g = before ++ h :: g :: later := by
    rw [hgates]
    simp
  rw [hset]
  have hr := rearranged_of_apart hgates hg hh hapart
  exact ⟨fun o => by rw [Drawing.text, Drawing.text, hr.lines_eq], hr.layout_eq⟩

theorem drawing_of_staggered_exchange :
    let g : Gate := .named .t true 0 .none
    let h : Gate := .named .not false 1 ⟨[⟨2, true⟩], false⟩
    let c' := { staggered with gates := (staggered.gates.set 1 h).set 2 g }
    ¬ g.Exclusive staggered.row ∧ ¬ h.Exclusive staggered.row ∧
      (∀ r, ¬ (g.Occupies staggered.row r ∧ h.Occupies staggered.row r)) ∧
      (∀ o, Drawing.text o c' = Drawing.text o staggered) ∧
      c'.layout = staggered.layout.map fun col => (col.map (Equiv.swap 1 2)).mergeSort := by
  intro g h c'
  have hg : ¬ g.Exclusive staggered.row := by decide +kernel
  have hh : ¬ h.Exclusive staggered.row := by decide +kernel
  have hapart (r : Nat) : ¬ (g.Occupies staggered.row r ∧ h.Occupies staggered.row r) := by
    rintro ⟨⟨-, hhi⟩, hlo, -⟩
    have hhi : r = 0 := by simpa [g, Gate.wires, Control.none, Control.wires, row, rowAmong, wires_staggered] using hhi
    have hlo : 1 ≤ r ∨ 2 ≤ r := by simpa [h, Gate.wires, Control.wires, row, rowAmong, wires_staggered] using hlo
    omega
  exact ⟨hg, hh, hapart, drawing_of_exchange staggered 1 g h rfl rfl hg hh hapart⟩

end Circuit

end CircuitDesk
