import CircuitDesk.Proofs.Exchange

namespace CircuitDesk

def IsLast {α : Type} (p : α → Prop) (as : List α) (a : α) : Prop :=
  ∃ before after, as = before ++ a :: after ∧ p a ∧ ∀ b ∈ after, ¬ p b

theorem exists_isLast {α : Type} {p : α → Prop} {as : List α} (h : ∃ a ∈ as, p a) : ∃ a, IsLast p as a := by
  induction as with
  | nil => simp at h
  | cons b as ih =>
    by_cases hlater : ∃ a ∈ as, p a
    · obtain ⟨a, before, after, rfl, ha, hafter⟩ := ih hlater
      exact ⟨a, b :: before, after, rfl, ha, hafter⟩
    · obtain ⟨a, hmem, ha⟩ := h
      obtain rfl | hmem := List.mem_cons.mp hmem
      · exact ⟨a, [], as, rfl, ha, fun a' hmem ha' => hlater ⟨a', hmem, ha'⟩⟩
      · exact absurd ⟨a, hmem, ha⟩ hlater

theorem IsLast.unique {α : Type} {p : α → Prop} {as : List α} {a a' : α} (h : IsLast p as a) (h' : IsLast p as a') :
    a = a' := by
  obtain ⟨before, after, rfl, ha, hafter⟩ := h
  obtain ⟨before', after', heq, ha', hafter'⟩ := h'
  rw [List.append_eq_append_iff] at heq
  rcases heq with ⟨_ | ⟨b, between⟩, -, heq⟩ | ⟨_ | ⟨b, between⟩, -, heq⟩
  · exact (List.cons.inj heq).1
  · obtain ⟨-, rfl⟩ := List.cons.inj heq
    exact absurd ha' (hafter a' (by simp))
  · exact (List.cons.inj heq).1.symm
  · obtain ⟨-, rfl⟩ := List.cons.inj heq
    exact absurd ha (hafter' a (by simp))

theorem not_isLast {α : Type} {p : α → Prop} {as : List α} {a : α} (h : ∀ a ∈ as, ¬ p a) : ¬ IsLast p as a := by
  rintro ⟨before, after, rfl, ha, -⟩
  exact h a (by simp) ha

namespace Gate

def controlRefs : Gate → List ControlRef
  | .named _ _ _ control => control.refs
  | .call c => c.control.refs
  | _ => []

def targets : Gate → List Wire
  | .named _ _ w _ | .rotation _ _ _ w | .init _ w _ => [w]
  | .comment .. => []
  | .call c => c.inputs ++ c.outputs

end Gate

namespace Drawing

variable {row : Wire → Nat} {g : Gate} {s : Span} {w : Wire} {r : Nat} {cell cell' : Cell}
  {m m' : Mark}

inductive Symbol : Gate → Mark → Prop
  | swap (inverted : Bool) (w : Wire) (control : Control) : Symbol (.named .swap inverted w control) (.target "×")
  | controlledNot (inverted : Bool) (w : Wire) {control : Control} : control.refs ≠ [] →
      Symbol (.named .not inverted w control) (.target "⊕")
  | box {op : GateOp} (inverted : Bool) (w : Wire) {control : Control} : op ≠ .swap →
      ¬ (op = .not ∧ control.refs ≠ []) →
      Symbol (.named op inverted w control) (.box (boxText op.name inverted) false)
  | rotation (op : RotationOp) (inverted : Bool) (timestep : Binary64) (w : Wire) :
      Symbol (.rotation op inverted timestep w) (.box (boxText (rotationName op) inverted) false)
  | init (value : Bool) (w : Wire) (label : Bytes) : Symbol (.init value w label) (.init value)
  | call (c : Call) : Symbol (.call c) (.box (callText c) true)

/-- `Shows w g m` says that `m` is what the gate shows on the wire `w` when its range of rows has that of the wire. -/
inductive Shows (w : Wire) : Gate → Mark → Prop
  | label {text : Bytes} {labels : List WireLabel} {l : WireLabel} : IsLast (·.wire = w) labels l →
      Shows w (.comment text labels) (.label l.label)
  | unlabelled {text : Bytes} {labels : List WireLabel} : (∀ l ∈ labels, l.wire ≠ w) →
      Shows w (.comment text labels) .wire
  | control {g : Gate} {ref : ControlRef} : IsLast (·.wire = w) g.controlRefs ref →
      Shows w g (.control ref.positive)
  | target {g : Gate} {m : Mark} : (∀ ref ∈ g.controlRefs, ref.wire ≠ w) → w ∈ g.targets → Symbol g m → Shows w g m
  | crossing {g : Gate} : isLinked g → (∀ ref ∈ g.controlRefs, ref.wire ≠ w) → w ∉ g.targets → Shows w g .crossing

theorem ne_wire_of_symbol (h : Symbol g m) : m ≠ .wire := by cases h <;> simp

theorem Symbol.unique (h : Symbol g m) (h' : Symbol g m') : m = m' := by
  cases h <;> cases h' <;> simp_all

theorem Shows.unique (h : Shows w g m) (h' : Shows w g m') : m = m' := by
  cases h with
  | label hlast =>
    cases h' with
    | label hlast' => rw [hlast.unique hlast']
    | unlabelled hnone => exact absurd hlast (not_isLast hnone)
    | control hlast' => exact absurd hlast' (not_isLast (by simp [Gate.controlRefs]))
    | target _ _ hm => cases hm
    | crossing hg => cases hg
  | unlabelled hnone =>
    cases h' with
    | label hlast => exact absurd hlast (not_isLast hnone)
    | unlabelled => rfl
    | control hlast' => exact absurd hlast' (not_isLast (by simp [Gate.controlRefs]))
    | target _ _ hm => cases hm
    | crossing hg => cases hg
  | control hlast =>
    cases h' with
    | label | unlabelled => exact absurd hlast (not_isLast (by simp [Gate.controlRefs]))
    | control hlast' => rw [hlast.unique hlast']
    | target hnone | crossing _ hnone => exact absurd hlast (not_isLast hnone)
  | target hnone hw hm =>
    cases h' with
    | label | unlabelled => cases hm
    | control hlast => exact absurd hlast (not_isLast hnone)
    | target _ _ hm' => exact hm.unique hm'
    | crossing _ _ hw' => exact absurd hw hw'
  | crossing hg hnone hw =>
    cases h' with
    | label | unlabelled => cases hg
    | control hlast => exact absurd hlast (not_isLast hnone)
    | target _ hw' => exact absurd hw' hw
    | crossing => rfl

theorem symbol_targetMark (op : GateOp) (inverted : Bool) (w : Wire) (control : Control) :
    Symbol (.named op inverted w control) (targetMark op inverted control) := by
  unfold targetMark
  split
  · next hswap =>
    subst hswap
    exact .swap inverted w control
  · next hswap =>
    have hcontrolled : control.isControlled = true ↔ control.refs ≠ [] := by simp [Control.isControlled]
    simp only [hcontrolled]
    split
    · next hnot =>
      obtain ⟨rfl, hrefs⟩ := hnot
      exact .controlledNot inverted w hrefs
    · next hnot => exact .box inverted w hswap hnot

theorem exists_marks (hg : isLinked g) : ∃ (ts : List Wire) (m : Mark), Symbol g m ∧
    marks g = ts.map (·, m) ++ g.controlRefs.map (fun ref => (ref.wire, .control ref.positive)) ∧
    ∀ w, w ∈ ts ∨ (∃ ref ∈ g.controlRefs, ref.wire = w) ↔ w ∈ g.targets ∨ ∃ ref ∈ g.controlRefs, ref.wire = w := by
  cases g with
  | named op inverted w control =>
    exact ⟨[w], _, symbol_targetMark op inverted w control, rfl, fun _ => Iff.rfl⟩
  | rotation op inverted timestep w => exact ⟨[w], _, .rotation op inverted timestep w, rfl, fun _ => Iff.rfl⟩
  | init value w label => exact ⟨[w], _, .init value w label, rfl, fun _ => Iff.rfl⟩
  | comment => cases hg
  | call c =>
    refine ⟨c.wires, _, .call c, rfl, fun w => ?_⟩
    simp only [Call.wires, Control.wires, Gate.controlRefs, Gate.targets, List.mem_append, Gate.mem_firstOccurrences,
      List.mem_map, or_assoc, or_self]

theorem mem_wires_iff (hg : isLinked g) :
    w ∈ g.wires ↔ w ∈ g.targets ∨ ∃ ref ∈ g.controlRefs, ref.wire = w := by
  cases g with
  | comment => cases hg
  | call c =>
    simp only [Gate.wires, Call.wires, Control.wires, Gate.controlRefs, Gate.targets, List.mem_append,
      Gate.mem_firstOccurrences, List.mem_map]
  | _ => simp [Gate.wires, Gate.controlRefs, Gate.targets, Control.wires]

theorem markCell_append (ms ms' : List (Wire × Mark)) :
    markCell row (ms ++ ms') r cell = markCell row ms' r (markCell row ms r cell) := List.foldl_append

theorem markCell_of_isLast {α : Type} {p : α → Prop} {as : List α} {a : α} (h : IsLast p as a) (f : α → Wire × Mark)
    (hrow : ∀ b ∈ as, row (f b).1 = r ↔ p b) : markCell row (as.map f) r cell = .ofMark (f a).2 := by
  obtain ⟨before, after, rfl, ha, hafter⟩ := h
  rw [List.map_append, markCell_append, List.map_cons, markCell, List.foldl_cons,
    if_pos ((hrow a (by simp)).mpr ha)]
  refine markCell_of_untouched fun m hm => ?_
  obtain ⟨b, hb, rfl⟩ := List.mem_map.mp hm
  exact fun hb' => hafter b hb ((hrow b (by simp [hb])).mp hb')

theorem exists_shows_comment (text : Bytes) {labels : List WireLabel}
    (hrow : ∀ l ∈ labels, row l.wire = r ↔ l.wire = w) :
    ∃ m, Shows w (.comment text labels) m ∧ markCell row (marks (.comment text labels)) r .blank = .ofMark m := by
  by_cases hlabel : ∃ l ∈ labels, l.wire = w
  · obtain ⟨l, hlast⟩ := exists_isLast hlabel
    exact ⟨_, .label hlast, markCell_of_isLast hlast _ hrow⟩
  · have hnone : ∀ l ∈ labels, l.wire ≠ w := fun l hl hw => hlabel ⟨l, hl, hw⟩
    refine ⟨_, .unlabelled hnone, markCell_of_untouched fun m hm => ?_⟩
    obtain ⟨l, hl, rfl⟩ := List.mem_map.mp hm
    exact fun h => hnone l hl ((hrow l hl).mp h)

theorem shows_marked (hg : isLinked g) (hrow : ∀ w' ∈ g.wires, row w' = r ↔ w' = w) :
    (w ∈ g.wires ∧ ∃ m, m ≠ .wire ∧ Shows w g m ∧ markCell row (marks g) r .blank = .ofMark m) ∨
      w ∉ g.wires ∧ Shows w g .crossing ∧ markCell row (marks g) r .blank = .blank := by
  obtain ⟨ts, m, hm, hmarks, hts⟩ := exists_marks hg
  have hwires : w ∈ g.wires ↔ w ∈ ts ∨ ∃ ref ∈ g.controlRefs, ref.wire = w := by rw [mem_wires_iff hg, hts]
  have hrefs : ∀ ref ∈ g.controlRefs, row ref.wire = r ↔ ref.wire = w := fun ref href =>
    hrow _ ((mem_wires_iff hg).mpr (.inr ⟨ref, href, rfl⟩))
  have htargets : ∀ t ∈ ts, row t = r ↔ t = w := fun t ht => hrow t ((mem_wires_iff hg).mpr ((hts t).mp (.inl ht)))
  rw [hmarks, markCell_append]
  by_cases hcontrol : ∃ ref ∈ g.controlRefs, ref.wire = w
  · obtain ⟨ref, hlast⟩ := exists_isLast hcontrol
    exact .inl ⟨hwires.mpr (.inr hcontrol), _, by simp, .control hlast, markCell_of_isLast hlast _ hrefs⟩
  · have hnone : ∀ ref ∈ g.controlRefs, ref.wire ≠ w := fun ref href hw => hcontrol ⟨ref, href, hw⟩
    have hcontrols (cell : Cell) : markCell row
        (g.controlRefs.map fun ref => (ref.wire, .control ref.positive)) r cell = cell := by
      refine markCell_of_untouched fun m hm => ?_
      obtain ⟨ref, href, rfl⟩ := List.mem_map.mp hm
      exact fun h => hnone ref href ((hrefs ref href).mp h)
    have hmem : w ∈ ts ↔ w ∈ g.targets := by simpa [hcontrol] using hts w
    rw [hcontrols]
    by_cases ht : w ∈ ts
    · obtain ⟨t, hlast⟩ := exists_isLast (p := (· = w)) ⟨w, ht, rfl⟩
      exact .inl ⟨hwires.mpr (.inl ht), m, ne_wire_of_symbol hm, .target hnone (hmem.mp ht) hm,
        markCell_of_isLast hlast (·, m) htargets⟩
    · refine .inr ⟨fun hw => (hwires.mp hw).elim ht hcontrol, .crossing hg hnone (fun h => ht (hmem.mpr h)), ?_⟩
      refine markCell_of_untouched fun m' hm' => ?_
      obtain ⟨t, hmem', rfl⟩ := List.mem_map.mp hm'
      exact fun h => ht ((htargets t hmem').mp h ▸ hmem')

/-- The cell shows the gate on the wire `w` of the row `r`: its mark, and connectors to the rows of its range above and
below. -/
structure Pictures (row : Wire → Nat) (g : Gate) (r : Nat) (w : Wire) (cell : Cell) : Prop where
  mark : Shows w g cell.mark
  linked : ∃ lo hi, IsLeast {k | g.Occupies row k} lo ∧ IsGreatest {k | g.Occupies row k} hi ∧
    (cell.above ↔ isLinked g ∧ lo < r) ∧ (cell.below ↔ isLinked g ∧ r < hi)

theorem ends_of_span? (hs : g.span? row = some s) :
    IsLeast {k | g.Occupies row k} s.lo ∧ IsGreatest {k | g.Occupies row k} s.hi := by
  have hset : {k | g.Occupies row k} = Set.Icc s.lo s.hi := by
    ext k
    rw [Set.mem_ofPred_eq, Gate.occupies_iff hs, Span.contains_iff, Set.mem_Icc]
  rw [hset]
  exact ⟨isLeast_Icc (Gate.lo_le_hi hs), isGreatest_Icc (Gate.lo_le_hi hs)⟩

theorem paintCell_of_single (hs : g.span? row = some s) (hone : ¬ (isLinked g ∧ s.lo < s.hi)) :
    paintCell row g r cell = markCell row (marks g) r cell := by
  rw [paintCell, hs]
  dsimp only
  rw [if_neg hone]

theorem paintCell_of_linked (hs : g.span? row = some s) (hlinked : isLinked g) (hlt : s.lo < s.hi)
    (hr : s.contains r) (hcell : markCell row (marks g) r .blank = .ofMark m) :
    paintCell row g r .blank = ⟨if m = .wire then .crossing else m, s.lo < r, r < s.hi⟩ := by
  rw [paintCell, hs]
  dsimp only
  rw [if_pos ⟨hlinked, hlt⟩, Function.comp_apply, hcell, linkCell, if_pos hr]
  rfl

theorem pictures_of_occupies (hr : g.Occupies row r) (hrow : ∀ w' ∈ g.wires, row w' = r ↔ w' = w) :
    Pictures row g r w (paintCell row g r .blank) := by
  obtain ⟨s, hs⟩ : ∃ s, g.span? row = some s := by
    obtain ⟨⟨a, ha, -⟩, -⟩ := hr
    exact Option.ne_none_iff_exists'.mp fun hnone => List.ne_nil_of_mem ha (Gate.span?_eq_none.mp hnone)
  have hcontains := (Gate.occupies_iff hs).mp hr
  have hbounds := Span.contains_iff.mp hcontains
  obtain ⟨hleast, hgreatest⟩ := ends_of_span? hs
  cases hlinked : isLinked g with
  | false =>
    cases g with
    | comment text labels =>
      have hlabels : ∀ l ∈ labels, row l.wire = r ↔ l.wire = w := fun l hl => hrow l.wire (List.mem_map_of_mem hl)
      obtain ⟨m, hm, hcell⟩ := exists_shows_comment text hlabels
      rw [paintCell_of_single hs (by simp [hlinked]), hcell]
      exact ⟨hm, s.lo, s.hi, hleast, hgreatest, by simp [Cell.ofMark, hlinked], by simp [Cell.ofMark, hlinked]⟩
    | _ => cases hlinked
  | true =>
    by_cases hlt : s.lo < s.hi
    · rcases shows_marked hlinked hrow with ⟨-, m, hm, hshows, hcell⟩ | ⟨-, hshows, hcell⟩
      · rw [paintCell_of_linked hs hlinked hlt hcontains hcell, if_neg hm]
        exact ⟨hshows, s.lo, s.hi, hleast, hgreatest, by simp [hlinked], by simp [hlinked]⟩
      · rw [paintCell_of_linked hs hlinked hlt hcontains hcell, if_pos rfl]
        exact ⟨hshows, s.lo, s.hi, hleast, hgreatest, by simp [hlinked], by simp [hlinked]⟩
    · -- in a range of one row the gate touches the wire of that row
      have hw : w ∈ g.wires := by
        obtain ⟨w', hw', hle⟩ := (Gate.lo_le_iff hs).mp hbounds.1
        have hge := (Gate.lo_le_iff (r := row w') hs).mpr ⟨w', hw', Nat.le_refl _⟩
        exact (hrow w' hw').mp (by omega) ▸ hw'
      obtain ⟨-, m, -, hshows, hcell⟩ | ⟨hnot, -⟩ := shows_marked hlinked hrow
      · rw [paintCell_of_single hs (by simp [hlt]), hcell]
        exact ⟨hshows, s.lo, s.hi, hleast, hgreatest, by simp [Cell.ofMark]; omega, by simp [Cell.ofMark]; omega⟩
      · exact absurd hw hnot

theorem Pictures.unique (h : Pictures row g r w cell) (h' : Pictures row g r w cell') : cell = cell' := by
  obtain ⟨hmark, lo, hi, hlo, hhi, habove, hbelow⟩ := h
  obtain ⟨hmark', lo', hi', hlo', hhi', habove', hbelow'⟩ := h'
  obtain rfl := hlo.unique hlo'
  obtain rfl := hhi.unique hhi'
  obtain ⟨mark, above, below⟩ := cell
  obtain ⟨mark', above', below'⟩ := cell'
  obtain rfl := hmark.unique hmark'
  obtain rfl : above = above' := Bool.eq_iff_iff.mpr (habove.trans habove'.symm)
  obtain rfl : below = below' := Bool.eq_iff_iff.mpr (hbelow.trans hbelow'.symm)
  rfl

theorem Pictures.below_iff (h : Pictures row g r w cell) (hr : g.Occupies row r) :
    cell.below ↔ isLinked g ∧ g.Occupies row (r + 1) := by
  obtain ⟨-, lo, hi, -, hgreatest, -, hiff⟩ := h
  rw [hiff]
  refine and_congr_right fun _ => ⟨fun hlt => ?_, fun hnext => Nat.lt_of_succ_le (hgreatest.2 hnext)⟩
  obtain ⟨w, hw, hle⟩ := hr.1
  obtain ⟨w', hw', hle'⟩ := hgreatest.1.2
  exact ⟨⟨w, hw, by omega⟩, w', hw', by omega⟩

theorem Pictures.above_iff (h : Pictures row g (r + 1) w cell) (hr : g.Occupies row (r + 1)) :
    cell.above ↔ isLinked g ∧ g.Occupies row r := by
  obtain ⟨-, lo, hi, hleast, -, hiff, -⟩ := h
  rw [hiff]
  refine and_congr_right fun _ => ⟨fun hlt => ?_, fun hbefore => Nat.lt_succ_of_le (hleast.2 hbefore)⟩
  obtain ⟨w, hw, hle⟩ := hleast.1.1
  obtain ⟨w', hw', hle'⟩ := hr.2
  exact ⟨⟨w, hw, by omega⟩, w', hw', by omega⟩

theorem getElem?_column (row : Wire → Nat) (rows : Nat) (gates : List Gate) (r : Nat) :
    (column row rows gates)[r]? =
      if r < rows then some (gates.foldl (fun cell g => paintCell row g r cell) .blank) else none := by
  have hfold (cells : List Cell) : (gates.foldl (paintGate row) cells)[r]? =
      (cells[r]?).map fun cell => gates.foldl (fun cell g => paintCell row g r cell) cell := by
    induction gates generalizing cells with
    | nil => exact Option.map_id'.symm
    | cons g gates ih => rw [List.foldl_cons, ih, getElem?_paintGate, Option.map_map]; rfl
  rw [column, hfold, List.getElem?_replicate]
  split <;> rfl

theorem length_column (row : Wire → Nat) (rows : Nat) (gates : List Gate) :
    (column row rows gates).length = rows := by
  refine eq_of_forall_ge_iff fun r => ?_
  rw [← List.getElem?_eq_none_iff, getElem?_column]
  simp

theorem foldl_paintCell_of_not_occupied {gates : List Gate} (hr : ∀ g ∈ gates, ¬ g.Occupies row r) :
    gates.foldl (fun cell g => paintCell row g r cell) cell = cell := by
  induction gates generalizing cell with
  | nil => rfl
  | cons g gates ih =>
    rw [List.foldl_cons, paintCell_of_not_occupied (hr g List.mem_cons_self)]
    exact ih fun h hh => hr h (List.mem_cons_of_mem g hh)

end Drawing

namespace Circuit

open Drawing

variable {c : Circuit} {col : List Nat} {i : Nat} {g : Gate} {r : Nat} {w : Wire} {cell : Cell}

theorem row_eq_iff (hr : c.wires[r]? = some w) {w' : Wire} (hw' : w' ∈ c.wires) : c.row w' = r ↔ w' = w := by
  obtain ⟨hlt, rfl⟩ := List.getElem?_eq_some_iff.mp hr
  constructor
  · rintro rfl
    exact (List.getElem_idxOf hlt).symm
  · rintro rfl
    exact (wires_nodup c).idxOf_getElem r hlt

theorem mem_wires_of_gate (hg : c.gates[i]? = some g) (hw : w ∈ g.wires) : w ∈ c.wires := by
  rw [mem_wires, mentionedWires, List.mem_append, List.mem_append, List.mem_flatMap]
  exact .inl (.inr ⟨g, List.mem_of_getElem? hg, hw⟩)

theorem row_lt_of_gate (hg : c.gates[i]? = some g) (hw : w ∈ g.wires) : c.row w < c.wires.length :=
  List.idxOf_lt_length_iff.mpr (mem_wires_of_gate hg hw)

structure Reaches (c : Circuit) (col : List Nat) (i : Nat) (g : Gate) (r : Nat) : Prop where
  mem : i ∈ col
  gate : c.gates[i]? = some g
  occupies : g.Occupies c.row r

structure Filled (c : Circuit) (col : List Nat) (cells : List Cell) : Prop where
  length : cells.length = c.wires.length
  unique : ∀ r i j g h, c.Reaches col i g r → c.Reaches col j h r → i = j
  plain : ∀ r cell, cells[r]? = some cell → (¬ ∃ i g, c.Reaches col i g r) → cell = .blank
  shown : ∀ r w cell i g, c.wires[r]? = some w → c.Reaches col i g r →
    (cells[r]? = some cell ↔ Pictures c.row g r w cell)

theorem Reaches.lt_length (h : c.Reaches col i g r) : r < c.wires.length := by
  obtain ⟨w, hw, hle⟩ := h.occupies.2
  exact Nat.lt_of_le_of_lt hle (row_lt_of_gate h.gate hw)

theorem paint_of_unreached (h : ∀ i ∈ col, ∀ g, c.gates[i]? = some g → ¬ g.Occupies c.row r) :
    (col.filterMap (c.gates[·]?)).foldl (fun cell g => paintCell c.row g r cell) cell = cell := by
  refine foldl_paintCell_of_not_occupied fun g hg => ?_
  obtain ⟨i, hi, hg⟩ := List.mem_filterMap.mp hg
  exact h i hi g hg

theorem paint_of_reached (hcol : col ∈ c.layout) (h : c.Reaches col i g r) :
    (col.filterMap (c.gates[·]?)).foldl (fun cell g => paintCell c.row g r cell) .blank =
      paintCell c.row g r .blank := by
  have hnodup : col.Nodup := by
    obtain ⟨k, hk⟩ := List.getElem?_of_mem hcol
    obtain ⟨-, rfl⟩ := getElem?_layout.mp hk
    exact (numbersIn_ascending _ k).imp Nat.ne_of_lt
  -- the layout puts gates into one column only when their ranges do not meet
  have hothers : ∀ j ∈ col, j ≠ i → ∀ h, c.gates[j]? = some h → ¬ h.Occupies c.row r := fun j hj hji h' hh' hr =>
    hji (eq_of_occupied hcol hj h.mem hh' h.gate hr h.occupies)
  obtain ⟨before, after, rfl⟩ := List.append_of_mem h.mem
  obtain ⟨hbefore, hi⟩ : i ∉ before ∧ i ∉ after := by
    rw [List.nodup_append, List.nodup_cons] at hnodup
    exact ⟨fun hi => hnodup.2.2 i hi i List.mem_cons_self rfl, hnodup.2.1.1⟩
  rw [List.filterMap_append, List.filterMap_cons_some h.gate, List.foldl_append, List.foldl_cons,
    paint_of_unreached fun j hj => hothers j (by simp [hj]) fun hji => hbefore (hji ▸ hj),
    paint_of_unreached fun j hj => hothers j (by simp [hj]) fun hji => hi (hji ▸ hj)]

theorem filled_of_layout (hcol : col ∈ c.layout) :
    c.Filled col (column c.row c.wires.length (col.filterMap (c.gates[·]?))) where
  length := length_column ..
  unique _ _ _ _ _ hi hj := eq_of_occupied hcol hi.mem hj.mem hi.gate hj.gate hi.occupies hj.occupies
  plain r cell hcell hnone := by
    rw [getElem?_column] at hcell
    obtain ⟨-, hcell⟩ := Option.ite_none_right_eq_some.mp hcell
    rw [← Option.some.inj hcell]
    exact paint_of_unreached fun i hi g hg hr => hnone ⟨i, g, hi, hg, hr⟩
  shown r w cell i g hw hreaches := by
    have hpictures := pictures_of_occupies hreaches.occupies fun w' hw' =>
      row_eq_iff hw (mem_wires_of_gate hreaches.gate hw')
    rw [getElem?_column, if_pos hreaches.lt_length, paint_of_reached hcol hreaches, Option.some.injEq]
    constructor
    · rintro rfl
      exact hpictures
    · exact hpictures.unique

variable {cells : List Cell}

theorem Filled.exists_cell (h : c.Filled col cells) (hr : c.Reaches col i g r) : ∃ cell, cells[r]? = some cell :=
  ⟨_, List.getElem?_eq_getElem (h.length ▸ hr.lt_length)⟩

theorem Filled.exists_pictures (h : c.Filled col cells) (hcell : cells[r]? = some cell)
    (hr : c.Reaches col i g r) : ∃ w, Pictures c.row g r w cell :=
  ⟨_, (h.shown r _ cell i g (List.getElem?_eq_getElem hr.lt_length) hr).mp hcell⟩

theorem Filled.any_below_iff (h : c.Filled col cells) :
    (cells[r]?.any Cell.below) = true ↔
      ∃ i g, isLinked g ∧ c.Reaches col i g r ∧ c.Reaches col i g (r + 1) := by
  rw [Option.any_eq_true]
  constructor
  · rintro ⟨cell, hcell, hbelow⟩
    by_cases hreached : ∃ i g, c.Reaches col i g r
    · obtain ⟨i, g, hreaches⟩ := hreached
      obtain ⟨w, hpictures⟩ := h.exists_pictures hcell hreaches
      obtain ⟨hlinked, hnext⟩ := (hpictures.below_iff hreaches.occupies).mp hbelow
      exact ⟨i, g, hlinked, hreaches, hreaches.mem, hreaches.gate, hnext⟩
    · rw [h.plain r cell hcell hreached] at hbelow
      cases hbelow
  · rintro ⟨i, g, hlinked, hreaches, hnext⟩
    obtain ⟨cell, hcell⟩ := h.exists_cell hreaches
    obtain ⟨w, hpictures⟩ := h.exists_pictures hcell hreaches
    exact ⟨cell, hcell, (hpictures.below_iff hreaches.occupies).mpr ⟨hlinked, hnext.occupies⟩⟩

theorem Filled.any_above_iff (h : c.Filled col cells) :
    (cells[r + 1]?.any Cell.above) = true ↔
      ∃ i g, isLinked g ∧ c.Reaches col i g r ∧ c.Reaches col i g (r + 1) := by
  rw [Option.any_eq_true]
  constructor
  · rintro ⟨cell, hcell, habove⟩
    by_cases hreached : ∃ i g, c.Reaches col i g (r + 1)
    · obtain ⟨i, g, hreaches⟩ := hreached
      obtain ⟨w, hpictures⟩ := h.exists_pictures hcell hreaches
      obtain ⟨hlinked, hbefore⟩ := (hpictures.above_iff hreaches.occupies).mp habove
      exact ⟨i, g, hlinked, ⟨hreaches.mem, hreaches.gate, hbefore⟩, hreaches⟩
    · rw [h.plain (r + 1) cell hcell hreached] at habove
      cases habove
  · rintro ⟨i, g, hlinked, hbefore, hreaches⟩
    obtain ⟨cell, hcell⟩ := h.exists_cell hreaches
    obtain ⟨w, hpictures⟩ := h.exists_pictures hcell hreaches
    exact ⟨cell, hcell, (hpictures.above_iff hreaches.occupies).mpr ⟨hlinked, hbefore.occupies⟩⟩

/-- The cells show a column, and connectors meet: one leads down from a row just where one leads up from the next. -/
structure Joined (c : Circuit) (col : List Nat) (cells : List Cell) : Prop extends c.Filled col cells where
  joined : ∀ r : Nat, cells[r]?.any Cell.below = cells[r + 1]?.any Cell.above

theorem joined_of_layout (c : Circuit) (col : List Nat) (hcol : col ∈ c.layout) :
    c.Joined col (column c.row c.wires.length (col.filterMap (c.gates[·]?))) where
  toFilled := filled_of_layout hcol
  joined r := by
    rw [Bool.eq_iff_iff, (filled_of_layout hcol).any_below_iff, (filled_of_layout hcol).any_above_iff]

theorem joined_of_staggered :
    let cells := column staggered.row staggered.wires.length ([0, 2].filterMap (staggered.gates[·]?))
    [0, 2] ∈ staggered.layout ∧
      cells = [⟨.box "H" false, false, false⟩, ⟨.target "⊕", false, true⟩, ⟨.control true, true, false⟩] ∧
      staggered.Joined [0, 2] cells := by
  intro cells
  have hcol : [0, 2] ∈ staggered.layout := by
    rw [layout_eq, gateColumns_staggered]
    decide
  refine ⟨hcol, ?_, joined_of_layout staggered [0, 2] hcol⟩
  have hrow : staggered.row = rowAmong [0, 1, 2] := by
    funext w
    rw [row, wires_staggered]
  rw [show cells = column staggered.row staggered.wires.length _ from rfl, hrow, wires_staggered]
  decide +kernel

end Circuit

end CircuitDesk
