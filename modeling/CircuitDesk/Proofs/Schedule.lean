import Mathlib.Data.Finset.Card
import Mathlib.Data.Finset.Image
import Mathlib.Data.List.Nodup
import Mathlib.Order.Bounds.Basic
import CircuitDesk.Proofs.Frontier
import CircuitDesk.Proofs.Wires

namespace CircuitDesk

namespace Circuit

variable {c : Circuit} {cols : List Nat} {i j k m n : Nat}

/-- Two gates of the circuit, by their numbers, that may not share a column. -/
def Conflict (c : Circuit) (i j : Nat) : Prop :=
  ∃ g h, c.gates[i]? = some g ∧ c.gates[j]? = some h ∧ g.Conflicts c.row h

theorem length_gateColumns (c : Circuit) : c.gateColumns.length = c.gates.length := by
  rw [gateColumns, length_assignColumns, List.length_map]

theorem gateColumns_le_iff (hj : c.gateColumns[j]? = some k) :
    k ≤ n ↔ ∀ i m, i < j → c.gateColumns[i]? = some m → c.Conflict i j → m < n := by
  have hspan {i : Nat} {s : Option Span} :
      (c.gates.map (Gate.sharedSpan? c.row))[i]? = some s ↔ ∃ g, c.gates[i]? = some g ∧ g.sharedSpan? c.row = s := by
    rw [List.getElem?_map, Option.map_eq_some_iff]
  have hlt : j < c.gates.length := by
    rw [← length_gateColumns]
    exact (List.getElem?_eq_some_iff.mp hj).1
  rw [assignColumns_le_iff (hspan.mpr ⟨_, List.getElem?_eq_getElem hlt, rfl⟩) hj]
  constructor
  · rintro hbehind i m hij hm ⟨g, h, hg, hh, hconflict⟩
    rw [List.getElem?_eq_getElem hlt, Option.some.injEq] at hh
    subst hh
    exact hbehind i _ m hij (hspan.mpr ⟨g, hg, rfl⟩) hm (Gate.conflicts_iff.mp hconflict)
  · intro hbehind i p m hij hp hm hmeets
    obtain ⟨g, hg, rfl⟩ := hspan.mp hp
    exact hbehind i m hij hm ⟨g, _, hg, List.getElem?_eq_getElem hlt, Gate.conflicts_iff.mpr hmeets⟩

theorem gateColumns_lt (hi : c.gateColumns[i]? = some m) (hj : c.gateColumns[j]? = some k) (hij : i < j)
    (hconflict : c.Conflict i j) : m < k :=
  (gateColumns_le_iff hj).mp (Nat.le_refl k) i m hij hi hconflict

theorem not_conflict_of_column (hi : c.gateColumns[i]? = some k) (hj : c.gateColumns[j]? = some k) (hij : i < j) :
    ¬ c.Conflict i j :=
  fun hconflict => Nat.lt_irrefl k (gateColumns_lt hi hj hij hconflict)

theorem exists_in_front (hj : c.gateColumns[j]? = some (k + 1)) : ∃ i : Nat, c.gateColumns[i]? = some k := by
  have hnot : ¬ k + 1 ≤ k := by omega
  rw [gateColumns_le_iff hj] at hnot
  push Not at hnot
  obtain ⟨i, m, hij, hm, hconflict, hle⟩ := hnot
  have hlt := gateColumns_lt hm hj hij hconflict
  obtain rfl : m = k := by omega
  exact ⟨i, hm⟩

theorem exists_gate_of_le (hj : c.gateColumns[j]? = some m) (hk : k ≤ m) : ∃ i : Nat, c.gateColumns[i]? = some k := by
  induction m, hk using Nat.le_induction generalizing j with
  | base => exact ⟨j, hj⟩
  | succ m _ ih =>
    obtain ⟨i, hi⟩ := exists_in_front hj
    exact ih hi

def columnCount (cols : List Nat) : Nat := cols.foldl (fun n k => max n (k + 1)) 0

def numbersIn (cols : List Nat) (k : Nat) : List Nat :=
  cols.zipIdx.filterMap fun (col, i) => if col = k then some i else none

theorem layout_eq (c : Circuit) :
    c.layout = (List.range (columnCount c.gateColumns)).map (numbersIn c.gateColumns) := rfl

theorem lt_columnCount : k < columnCount cols ↔ ∃ m ∈ cols, k ≤ m := by
  have hfold : columnCount cols = (cols.map (· + 1)).foldl max 0 := by rw [List.foldl_map]; rfl
  rw [hfold, ← Nat.succ_le_iff, le_foldl_max]
  simp

theorem mem_numbersIn : i ∈ numbersIn cols k ↔ cols[i]? = some k := by
  simp only [numbersIn, List.mem_filterMap, Prod.exists, List.mem_zipIdx_iff_getElem?, Option.ite_none_right_eq_some,
    Option.some.injEq]
  constructor
  · rintro ⟨m, i', hi, rfl, rfl⟩
    exact hi
  · intro hi
    exact ⟨k, i, hi, rfl, rfl⟩

theorem numbersIn_ascending (cols : List Nat) (k : Nat) : (numbersIn cols k).Pairwise (· < ·) := by
  have hzip : cols.zipIdx.Pairwise fun p q => p.2 < q.2 := by
    rw [← List.pairwise_map (R := (· < ·)), List.zipIdx_map_snd]
    exact List.pairwise_lt_range'
  refine List.Pairwise.filterMap _ ?_ hzip
  rintro ⟨m, i⟩ ⟨m', j⟩ hlt i' hi j' hj
  obtain ⟨-, hi⟩ := Option.ite_none_right_eq_some.mp hi
  obtain ⟨-, hj⟩ := Option.ite_none_right_eq_some.mp hj
  cases hi
  cases hj
  exact hlt

def StandsIn (columns : List (List Nat)) (i k : Nat) : Prop := ∃ col, columns[k]? = some col ∧ i ∈ col

theorem getElem?_layout {col : List Nat} :
    c.layout[k]? = some col ↔ k < columnCount c.gateColumns ∧ col = numbersIn c.gateColumns k := by
  rw [layout_eq, List.getElem?_map, Option.map_eq_some_iff]
  constructor
  · rintro ⟨k', hk', rfl⟩
    obtain ⟨hk, rfl⟩ := List.getElem?_eq_some_iff.mp hk'
    rw [List.length_range] at hk
    rw [List.getElem_range]
    exact ⟨hk, rfl⟩
  · rintro ⟨hk, rfl⟩
    exact ⟨k, List.getElem?_range hk, rfl⟩

theorem standsIn_layout : StandsIn c.layout i k ↔ c.gateColumns[i]? = some k := by
  constructor
  · rintro ⟨col, hcol, hi⟩
    obtain ⟨-, rfl⟩ := getElem?_layout.mp hcol
    exact mem_numbersIn.mp hi
  · intro hi
    have hk : k < columnCount c.gateColumns := lt_columnCount.mpr ⟨k, List.mem_of_getElem? hi, Nat.le_refl k⟩
    exact ⟨_, getElem?_layout.mpr ⟨hk, rfl⟩, mem_numbersIn.mpr hi⟩

theorem exists_standsIn (hi : i < c.gates.length) : ∃ k, StandsIn c.layout i k := by
  rw [← length_gateColumns] at hi
  exact ⟨_, standsIn_layout.mpr (List.getElem?_eq_getElem hi)⟩

theorem standsIn_unique (hk : StandsIn c.layout i k) (hm : StandsIn c.layout i m) : k = m := by
  rw [standsIn_layout] at hk hm
  exact Option.some.inj (hk.symm.trans hm)

theorem layout_inhabited (hk : k < c.layout.length) : ∃ i, StandsIn c.layout i k := by
  rw [layout_eq, List.length_map, List.length_range, lt_columnCount] at hk
  obtain ⟨m, hm, hle⟩ := hk
  obtain ⟨j, hj⟩ := List.getElem?_of_mem hm
  obtain ⟨i, hi⟩ := exists_gate_of_le hj hle
  exact ⟨i, standsIn_layout.mpr hi⟩

theorem layout_flatten (c : Circuit) : c.layout.flatten.Perm (List.range c.gates.length) := by
  have hnodup : c.layout.flatten.Nodup := by
    rw [List.nodup_flatten, layout_eq, List.forall_mem_map, List.pairwise_map]
    constructor
    · intro k _
      exact (numbersIn_ascending _ k).imp Nat.ne_of_lt
    · refine List.nodup_range.imp fun hne i hi hi' => hne ?_
      exact Option.some.inj ((mem_numbersIn.mp hi).symm.trans (mem_numbersIn.mp hi'))
  rw [List.perm_ext_iff_of_nodup hnodup List.nodup_range]
  intro i
  rw [List.mem_range, List.mem_flatten]
  constructor
  · rintro ⟨col, hcol, hi⟩
    obtain ⟨k, hk⟩ := List.getElem?_of_mem hcol
    have hi := standsIn_layout.mp ⟨col, hk, hi⟩
    rw [← length_gateColumns]
    exact (List.getElem?_eq_some_iff.mp hi).1
  · intro hi
    obtain ⟨k, col, hcol, hmem⟩ := exists_standsIn hi
    exact ⟨col, List.mem_of_getElem? hcol, hmem⟩

/-- Columns of gate numbers in which conflicting gates follow each other as in the circuit. -/
structure IsSchedule (c : Circuit) (columns : List (List Nat)) : Prop where
  once : columns.flatten.Perm (List.range c.gates.length)
  inhabited : ∀ col ∈ columns, col ≠ []
  ascending : ∀ col ∈ columns, col.Pairwise (· < ·)
  apart : ∀ col ∈ columns, col.Pairwise fun i j => ¬ c.Conflict i j
  ordered : ∀ i j k m, StandsIn columns i k → StandsIn columns j m → i < j → c.Conflict i j → k < m

theorem layout_isSchedule (c : Circuit) : c.IsSchedule c.layout := by
  have hcolumn {col : List Nat} (hcol : col ∈ c.layout) :
      ∃ k, k < c.layout.length ∧ c.layout[k]? = some col ∧ col = numbersIn c.gateColumns k := by
    obtain ⟨k, hk⟩ := List.getElem?_of_mem hcol
    exact ⟨k, (List.getElem?_eq_some_iff.mp hk).1, hk, (getElem?_layout.mp hk).2⟩
  refine ⟨layout_flatten c, fun col hcol => ?_, fun col hcol => ?_, fun col hcol => ?_, ?_⟩
  · obtain ⟨k, hlt, hk, -⟩ := hcolumn hcol
    obtain ⟨i, col', hcol', hi⟩ := layout_inhabited hlt
    obtain rfl : col = col' := Option.some.inj (hk.symm.trans hcol')
    exact List.ne_nil_of_mem hi
  · obtain ⟨k, -, -, rfl⟩ := hcolumn hcol
    exact numbersIn_ascending _ k
  · obtain ⟨k, -, -, rfl⟩ := hcolumn hcol
    exact (numbersIn_ascending c.gateColumns k).imp_of_mem fun hi hj =>
      not_conflict_of_column (mem_numbersIn.mp hi) (mem_numbersIn.mp hj)
  · intro i j k m hi hj hij hconflict
    exact gateColumns_lt (standsIn_layout.mp hi) (standsIn_layout.mp hj) hij hconflict

/-- An assignment of columns that puts conflicting gates one behind the other, as the circuit does. -/
def KeepsOrder (c : Circuit) (f : Nat → Nat) : Prop := ∀ i j, i < j → c.Conflict i j → f i < f j

def columnsOf (c : Circuit) (f : Nat → Nat) : Finset Nat := (Finset.range c.gates.length).image f

theorem Conflict.lt_length (h : c.Conflict i j) : i < c.gates.length ∧ j < c.gates.length := by
  obtain ⟨_, _, hg, hh, -⟩ := h
  exact ⟨(List.getElem?_eq_some_iff.mp hg).1, (List.getElem?_eq_some_iff.mp hh).1⟩

theorem layout_le {f : Nat → Nat} (hf : c.KeepsOrder f) (hk : StandsIn c.layout i k) : k ≤ f i := by
  induction i using Nat.strong_induction_on generalizing k with
  | h j ih =>
    rw [gateColumns_le_iff (standsIn_layout.mp hk)]
    intro i m hij hm hconflict
    exact Nat.lt_of_le_of_lt (ih i hij (standsIn_layout.mpr hm)) (hf i j hij hconflict)

def columnOf (c : Circuit) (i : Nat) : Nat := c.gateColumns.getD i 0

theorem columnOf_eq (hk : StandsIn c.layout i k) : c.columnOf i = k := by
  rw [columnOf, List.getD_eq_getElem?_getD, standsIn_layout.mp hk, Option.getD_some]

theorem keepsOrder_columnOf (c : Circuit) : c.KeepsOrder c.columnOf := by
  intro i j hij hconflict
  obtain ⟨k, hk⟩ := exists_standsIn hconflict.lt_length.1
  obtain ⟨m, hm⟩ := exists_standsIn hconflict.lt_length.2
  rw [columnOf_eq hk, columnOf_eq hm]
  exact gateColumns_lt (standsIn_layout.mp hk) (standsIn_layout.mp hm) hij hconflict

theorem columnsOf_columnOf (c : Circuit) : c.columnsOf c.columnOf = Finset.range c.layout.length := by
  ext k
  rw [columnsOf, Finset.mem_image, Finset.mem_range]
  constructor
  · rintro ⟨i, hi, rfl⟩
    obtain ⟨k, hk⟩ := exists_standsIn (Finset.mem_range.mp hi)
    rw [columnOf_eq hk]
    obtain ⟨col, hcol, -⟩ := hk
    exact (List.getElem?_eq_some_iff.mp hcol).1
  · intro hk
    obtain ⟨i, hi⟩ := layout_inhabited hk
    have hlt := (List.getElem?_eq_some_iff.mp (standsIn_layout.mp hi)).1
    rw [length_gateColumns] at hlt
    exact ⟨i, Finset.mem_range.mpr hlt, columnOf_eq hi⟩

def rank (c : Circuit) (f : Nat → Nat) (i : Nat) : Nat := ((c.columnsOf f).filter (· < f i)).card

theorem keepsOrder_rank {f : Nat → Nat} (hf : c.KeepsOrder f) : c.KeepsOrder (c.rank f) := by
  intro i j hij hconflict
  have hlt := hf i j hij hconflict
  have hi : f i ∈ c.columnsOf f := Finset.mem_image_of_mem f (Finset.mem_range.mpr hconflict.lt_length.1)
  apply Finset.card_lt_card
  rw [Finset.ssubset_iff_of_subset]
  · exact ⟨f i, Finset.mem_filter.mpr ⟨hi, hlt⟩, by simp⟩
  · intro k hk
    rw [Finset.mem_filter] at hk ⊢
    exact ⟨hk.1, hk.2.trans hlt⟩

theorem rank_lt {f : Nat → Nat} (hi : i < c.gates.length) : c.rank f i < (c.columnsOf f).card := by
  have hmem : f i ∈ c.columnsOf f := Finset.mem_image_of_mem f (Finset.mem_range.mpr hi)
  apply Finset.card_lt_card
  rw [Finset.filter_ssubset]
  exact ⟨f i, hmem, Nat.lt_irrefl _⟩

/-- The last column of the layout has a gate, whose rank in another assignment is below the number of its columns. -/
theorem layout_length_le {f : Nat → Nat} (hf : c.KeepsOrder f) : c.layout.length ≤ (c.columnsOf f).card := by
  cases hlength : c.layout.length with
  | zero => exact Nat.zero_le _
  | succ k =>
    obtain ⟨i, hi⟩ := layout_inhabited (c := c) (k := k) (by omega)
    have hlt := (List.getElem?_eq_some_iff.mp (standsIn_layout.mp hi)).1
    rw [length_gateColumns] at hlt
    have hrank := layout_le (keepsOrder_rank hf) hi
    exact Nat.lt_of_le_of_lt hrank (rank_lt hlt)

/-- Every gate stands in one column, no assignment that keeps the order has it further to the front, and none uses
fewer columns. -/
theorem layout_earliest (c : Circuit) :
    (∀ i < c.gates.length, ∃! k, StandsIn c.layout i k) ∧
      (∀ f, c.KeepsOrder f → ∀ i k, StandsIn c.layout i k → k ≤ f i) ∧
      IsLeast {n | ∃ f, c.KeepsOrder f ∧ (c.columnsOf f).card = n} c.layout.length := by
  refine ⟨fun i hi => ?_, fun f hf i k hk => layout_le hf hk, ?_, ?_⟩
  · obtain ⟨k, hk⟩ := exists_standsIn hi
    exact ⟨k, hk, fun m hm => standsIn_unique hm hk⟩
  · exact ⟨c.columnOf, keepsOrder_columnOf c, by rw [columnsOf_columnOf, Finset.card_range]⟩
  · rintro n ⟨f, hf, rfl⟩
    exact layout_length_le hf

def staggered : Circuit :=
  ⟨[⟨0, .qbit⟩, ⟨1, .qbit⟩, ⟨2, .qbit⟩],
    [.named .hadamard false 0 .none, .named .t true 0 .none, .named .not false 1 ⟨[⟨2, true⟩], false⟩,
      .named .swap false 2 ⟨[⟨0, false⟩], false⟩, .comment [] [⟨1, "mid"⟩]],
    []⟩

theorem wires_staggered : staggered.wires = [0, 1, 2] := wires_eq_of_ascending (by decide) (by decide)

theorem gateColumns_staggered : staggered.gateColumns = [0, 1, 0, 2, 3] := by
  rw [gateColumns, wires_staggered]
  rfl

theorem layout_earliest_of_staggered :
    staggered.KeepsOrder (2 * ·) ∧ StandsIn staggered.layout 3 2 ∧ 2 ≤ 2 * 3 := by
  have hspread : staggered.KeepsOrder (2 * ·) := fun i j hij _ => Nat.mul_lt_mul_of_pos_left hij (by decide)
  have hthird : StandsIn staggered.layout 3 2 := standsIn_layout.mpr (by rw [gateColumns_staggered]; rfl)
  exact ⟨hspread, hthird, (layout_earliest staggered).2.1 _ hspread 3 2 hthird⟩

end Circuit

end CircuitDesk
