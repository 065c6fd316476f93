import Mathlib.Logic.Basic
import CircuitDesk.Schedule

namespace CircuitDesk

variable {row : Wire → Nat} {g h : Gate} {s t : Span} {r : Nat}

theorem foldl_max_le {a n : Nat} {xs : List Nat} : xs.foldl max a ≤ n ↔ a ≤ n ∧ ∀ x ∈ xs, x ≤ n := by
  induction xs generalizing a with
  | nil => simp
  | cons x xs ih => rw [List.foldl_cons, ih, Nat.max_le, and_assoc, List.forall_mem_cons]

theorem le_foldl_max {a n : Nat} {xs : List Nat} : n ≤ xs.foldl max a ↔ ∃ x ∈ a :: xs, n ≤ x := by
  induction xs generalizing a with
  | nil => simp
  | cons x xs ih =>
    have hmax : n ≤ max a x ↔ n ≤ a ∨ n ≤ x := by omega
    simp only [List.foldl_cons, ih, List.mem_cons, exists_eq_or_imp, hmax, or_assoc]

theorem foldl_min_le {a n : Nat} {xs : List Nat} : xs.foldl min a ≤ n ↔ ∃ x ∈ a :: xs, x ≤ n := by
  induction xs generalizing a with
  | nil => simp
  | cons x xs ih =>
    have hmin : min a x ≤ n ↔ a ≤ n ∨ x ≤ n := by omega
    simp only [List.foldl_cons, ih, List.mem_cons, exists_eq_or_imp, hmin, or_assoc]

namespace Span

theorem contains_iff : s.contains r = true ↔ s.lo ≤ r ∧ r ≤ s.hi := by simp [contains]

theorem mem_rows : r ∈ s.rows ↔ s.contains r = true := by
  rw [rows, List.mem_range'_1, contains_iff]
  omega

theorem around_ordered (a : Nat) (as : List Nat) : (around a as).lo ≤ (around a as).hi :=
  Nat.le_trans (foldl_min_le.mpr ⟨a, List.mem_cons_self, Nat.le_refl a⟩)
    (le_foldl_max.mpr ⟨a, List.mem_cons_self, Nat.le_refl a⟩)

end Span

namespace Gate

def Occupies (row : Wire → Nat) (g : Gate) (r : Nat) : Prop :=
  (∃ w ∈ g.wires, row w ≤ r) ∧ ∃ w ∈ g.wires, r ≤ row w

inductive Exclusive (row : Wire → Nat) : Gate → Prop
  | comment (text : Bytes) (labels : List WireLabel) : Exclusive row (.comment text labels)
  | call {c : Call} {w w' : Wire} : w ∈ c.wires → w' ∈ c.wires → row w < row w' → Exclusive row (.call c)
  | wireless {g : Gate} : g.wires = [] → Exclusive row g

def Conflicts (row : Wire → Nat) (g h : Gate) : Prop :=
  g.Exclusive row ∨ h.Exclusive row ∨ ∃ r, g.Occupies row r ∧ h.Occupies row r

theorem span?_eq_none : g.span? row = none ↔ g.wires = [] := by
  unfold span?
  split <;> simp_all

theorem exists_around (hs : g.span? row = some s) : ∃ a as, g.wires.map row = a :: as ∧ s = .around a as := by
  unfold span? at hs
  split at hs
  · cases hs
  · next w ws hw =>
    cases hs
    exact ⟨row w, ws.map row, by rw [hw, List.map_cons], rfl⟩

theorem lo_le_hi (hs : g.span? row = some s) : s.lo ≤ s.hi := by
  obtain ⟨a, as, -, rfl⟩ := exists_around hs
  exact Span.around_ordered a as

theorem lo_le_iff (hs : g.span? row = some s) : s.lo ≤ r ↔ ∃ w ∈ g.wires, row w ≤ r := by
  obtain ⟨a, as, hrows, rfl⟩ := exists_around hs
  rw [Span.around, foldl_min_le, ← hrows]
  simp only [List.mem_map, exists_exists_and_eq_and]

theorem le_hi_iff (hs : g.span? row = some s) : r ≤ s.hi ↔ ∃ w ∈ g.wires, r ≤ row w := by
  obtain ⟨a, as, hrows, rfl⟩ := exists_around hs
  rw [Span.around, le_foldl_max, ← hrows]
  simp only [List.mem_map, exists_exists_and_eq_and]

theorem occupies_iff (hs : g.span? row = some s) : g.Occupies row r ↔ s.contains r = true := by
  rw [Span.contains_iff, lo_le_iff hs, le_hi_iff hs, Occupies]

theorem occupies_touched {w : Wire} (hw : w ∈ g.wires) : g.Occupies row (row w) :=
  ⟨⟨w, hw, Nat.le_refl _⟩, w, hw, Nat.le_refl _⟩

theorem lo_lt_hi_iff (hs : g.span? row = some s) :
    s.lo < s.hi ↔ ∃ w ∈ g.wires, ∃ w' ∈ g.wires, row w < row w' := by
  constructor
  · intro hlt
    obtain ⟨w, hw, hlo⟩ := (lo_le_iff hs).mp (Nat.le_refl s.lo)
    obtain ⟨w', hw', hhi⟩ := (le_hi_iff hs).mp (Nat.le_refl s.hi)
    exact ⟨w, hw, w', hw', by omega⟩
  · rintro ⟨w, hw, w', hw', hlt⟩
    have hlo := (lo_le_iff hs).mpr ⟨w, hw, Nat.le_refl _⟩
    have hhi := (le_hi_iff hs).mpr ⟨w', hw', Nat.le_refl _⟩
    omega

theorem sharedSpan?_eq_none : g.sharedSpan? row = none ↔ g.Exclusive row := by
  cases g with
  | comment text labels => exact ⟨fun _ => .comment text labels, fun _ => rfl⟩
  | call c =>
    rw [sharedSpan?, Option.filter_eq_none_iff]
    constructor
    · intro hnone
      cases hs : span? row (.call c) with
      | none => exact .wireless (span?_eq_none.mp hs)
      | some s =>
        have hne : s.lo ≠ s.hi := fun heq => hnone s hs (decide_eq_true heq)
        obtain ⟨w, hw, w', hw', hlt⟩ := (lo_lt_hi_iff hs).mp (Nat.lt_of_le_of_ne (lo_le_hi hs) hne)
        exact .call hw hw' hlt
    · rintro hexclusive s hs hsame
      cases hexclusive with
      | call hw hw' hlt =>
        have hlt := (lo_lt_hi_iff hs).mpr ⟨_, hw, _, hw', hlt⟩
        exact absurd (of_decide_eq_true hsame) (Nat.ne_of_lt hlt)
      | wireless hw => exact absurd hs (by simp [span?_eq_none.mpr hw])
  | named | rotation | init =>
    constructor
    · intro hnone
      cases hnone
    · intro hexclusive
      cases hexclusive with
      | wireless hw => cases hw

theorem exists_sharedSpan (hg : ¬ g.Exclusive row) : ∃ s, g.sharedSpan? row = some s := by
  rw [← sharedSpan?_eq_none] at hg
  exact Option.ne_none_iff_exists'.mp hg

instance (row : Wire → Nat) (g : Gate) : Decidable (g.Exclusive row) := decidable_of_iff _ sharedSpan?_eq_none

theorem span?_of_sharedSpan? (hs : g.sharedSpan? row = some s) : g.span? row = some s := by
  cases g with
  | comment => cases hs
  | call c => exact (Option.filter_eq_some_iff.mp hs).1
  | named | rotation | init => exact hs

end Gate

def Covers (s : Option Span) (r : Nat) : Prop := ∀ t ∈ s, t.contains r = true

def Meets (s t : Option Span) : Prop := s = none ∨ t = none ∨ ∃ r, Covers s r ∧ Covers t r

theorem Gate.conflicts_iff : g.Conflicts row h ↔ Meets (g.sharedSpan? row) (h.sharedSpan? row) := by
  rw [Conflicts, Meets, ← sharedSpan?_eq_none, ← sharedSpan?_eq_none]
  cases hs : g.sharedSpan? row with
  | none => simp
  | some s =>
    cases ht : h.sharedSpan? row with
    | none => simp
    | some t =>
      simp [Covers, occupies_iff (span?_of_sharedSpan? hs), occupies_iff (span?_of_sharedSpan? ht)]

end CircuitDesk
