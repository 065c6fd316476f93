import CircuitDesk.Drawing.Cell
import CircuitDesk.Proofs.Rows

namespace CircuitDesk

namespace Drawing

variable {row : Wire → Nat} {g h : Gate} {r : Nat} {cell : Cell}

def markCell (row : Wire → Nat) (ms : List (Wire × Mark)) (r : Nat) (cell : Cell) : Cell :=
  ms.foldl (fun cell m => if row m.1 = r then .ofMark m.2 else cell) cell

def linkCell (s : Span) (r : Nat) (cell : Cell) : Cell :=
  if s.contains r then ⟨if cell.mark = .wire then .crossing else cell.mark, s.lo < r, r < s.hi⟩ else cell

def paintCell (row : Wire → Nat) (g : Gate) (r : Nat) : Cell → Cell :=
  match g.span? row with
  | none => markCell row (marks g) r
  | some s => if isLinked g ∧ s.lo < s.hi then linkCell s r ∘ markCell row (marks g) r else markCell row (marks g) r

theorem getElem?_marked (row : Wire → Nat) (ms : List (Wire × Mark)) (cells : List Cell) (r : Nat) :
    (ms.foldl (paintMark row) cells)[r]? = (cells[r]?).map (markCell row ms r) := by
  induction ms generalizing cells with
  | nil => exact Option.map_id'.symm
  | cons m ms ih =>
    rw [List.foldl_cons, ih, paintMark, List.getElem?_set']
    split
    · next hrow => cases hcell : cells[r]? <;> simp [markCell, hrow]
    · next hrow => cases hcell : cells[r]? <;> simp [markCell, hrow]

theorem getElem?_connect (s : Span) (cells : List Cell) (r : Nat) :
    (connect s cells)[r]? = (cells[r]?).map (linkCell s r) := List.getElem?_mapIdx

theorem getElem?_paintGate (row : Wire → Nat) (cells : List Cell) (g : Gate) (r : Nat) :
    (paintGate row cells g)[r]? = (cells[r]?).map (paintCell row g r) := by
  unfold paintGate paintCell
  cases g.span? row with
  | none => exact getElem?_marked row (marks g) cells r
  | some s =>
    dsimp only
    split
    · rw [getElem?_connect, getElem?_marked, Option.map_map]
    · exact getElem?_marked row (marks g) cells r

theorem mem_wires_of_mark {m : Wire × Mark} (hm : m ∈ marks g) : m.1 ∈ g.wires := by
  cases g with
  | named op inverted w control =>
    simp only [marks, controlMarks, List.mem_cons, List.mem_map] at hm
    rcases hm with rfl | ⟨ref, href, rfl⟩
    · exact List.mem_cons_self
    · exact List.mem_cons_of_mem w (List.mem_map_of_mem href)
  | rotation | init =>
    cases List.mem_singleton.mp hm
    exact List.mem_cons_self
  | comment text labels =>
    obtain ⟨label, hlabel, rfl⟩ := List.mem_map.mp hm
    exact List.mem_map_of_mem hlabel
  | call c =>
    simp only [marks, controlMarks, List.mem_append, List.mem_map] at hm
    rcases hm with ⟨w, hw, rfl⟩ | ⟨ref, href, rfl⟩
    · exact hw
    · exact List.mem_append_right _ (List.mem_map_of_mem href)

theorem markCell_of_untouched {ms : List (Wire × Mark)} (hrow : ∀ m ∈ ms, row m.1 ≠ r) :
    markCell row ms r cell = cell := by
  induction ms with
  | nil => rfl
  | cons m ms ih =>
    rw [markCell, List.foldl_cons, if_neg (hrow m List.mem_cons_self)]
    exact ih fun m' hm' => hrow m' (List.mem_cons_of_mem m hm')

theorem paintCell_of_not_occupied (hr : ¬ g.Occupies row r) : paintCell row g r cell = cell := by
  have hmarks : markCell row (marks g) r cell = cell := by
    refine markCell_of_untouched fun m hm hrow => hr ?_
    rw [← hrow]
    exact Gate.occupies_touched (mem_wires_of_mark hm)
  rw [paintCell]
  cases hs : g.span? row with
  | none => exact hmarks
  | some s =>
    dsimp only
    split
    · rw [Function.comp_apply, hmarks]
      exact if_neg fun hcontains => hr ((Gate.occupies_iff hs).mpr hcontains)
    · exact hmarks

theorem paintGate_comm (hapart : ∀ r, ¬ (g.Occupies row r ∧ h.Occupies row r)) (cells : List Cell) :
    paintGate row (paintGate row cells g) h = paintGate row (paintGate row cells h) g := by
  apply List.ext_getElem?
  intro r
  simp only [getElem?_paintGate, Option.map_map]
  congr 1
  funext cell
  -- one of the gates leaves the row as it is
  by_cases hr : g.Occupies row r
  · have hh : ¬ h.Occupies row r := fun hh => hapart r ⟨hr, hh⟩
    simp only [Function.comp_apply, paintCell_of_not_occupied hh]
  · simp only [Function.comp_apply, paintCell_of_not_occupied hr]

theorem column_perm {gs gs' : List Gate} (rows : Nat) (hperm : gs.Perm gs')
    (hapart : ∀ g ∈ gs, ∀ h ∈ gs, g = h ∨ ∀ r, ¬ (g.Occupies row r ∧ h.Occupies row r)) :
    column row rows gs = column row rows gs' := by
  refine hperm.foldl_eq' (fun g hg h hh cells => ?_) _
  rcases hapart g hg h hh with rfl | hgh
  · rfl
  · exact paintGate_comm hgh cells

end Drawing

end CircuitDesk
