import CircuitDesk.Proofs.Rows

/-!
The frontier of a schedule. Each of its bounds is the first column behind the placed gates that matter for it, so a
gate gets the first column behind all the gates that it meets.
-/
namespace CircuitDesk

variable {f : Frontier} {placed : List (Option Span × Nat)} {Q : Option Span → Prop} {s : Option Span}
  {k m n col : Nat}

def FirstBehind (placed : List (Option Span × Nat)) (Q : Option Span → Prop) (m : Nat) : Prop :=
  ∀ n, m ≤ n ↔ ∀ p ∈ placed, Q p.1 → p.2 < n

namespace FirstBehind

theorem behind (h : FirstBehind placed Q m) : ∀ p ∈ placed, Q p.1 → p.2 < m := (h m).mp (Nat.le_refl m)

theorem forall_append {P : Option Span × Nat → Prop} :
    (∀ p ∈ placed ++ [(s, col)], P p) ↔ (∀ p ∈ placed, P p) ∧ P (s, col) := by
  rw [List.forall_mem_append, List.forall_mem_singleton]

theorem skip (h : FirstBehind placed Q m) (hs : ¬ Q s) : FirstBehind (placed ++ [(s, col)]) Q m := by
  intro n
  rw [h n, forall_append, and_iff_left]
  exact fun hq => absurd hq hs

theorem widen (h : FirstBehind placed Q m) (hs : Q s) : FirstBehind (placed ++ [(s, col)]) Q (max m (col + 1)) := by
  intro n
  rw [Nat.max_le, h n, Nat.succ_le_iff, forall_append]
  exact and_congr_right fun _ => ⟨fun hn _ => hn, fun hn => hn hs⟩

theorem last (hs : Q s) (hbehind : ∀ p ∈ placed, Q p.1 → p.2 < col) :
    FirstBehind (placed ++ [(s, col)]) Q (col + 1) := by
  intro n
  rw [Nat.succ_le_iff, forall_append]
  constructor
  · intro hn
    exact ⟨fun p hp hq => Nat.lt_trans (hbehind p hp hq) hn, fun _ => hn⟩
  · rintro ⟨-, hn⟩
    exact hn hs

end FirstBehind

namespace Frontier

structure Tracks (f : Frontier) (placed : List (Option Span × Nat)) : Prop where
  free : ∀ r, FirstBehind placed (Covers · r) (f.free r)
  barrier : FirstBehind placed (· = none) f.barrier
  used : FirstBehind placed (fun _ => True) f.used

theorem tracks_initial : initial.Tracks [] := by
  constructor <;> simp [initial, FirstBehind]

theorem column_shared_le {t : Span} :
    f.column (some t) ≤ n ↔ f.barrier ≤ n ∧ ∀ r, t.contains r = true → f.free r ≤ n := by
  rw [column, foldl_max_le, List.forall_mem_map]
  simp only [Span.mem_rows]

theorem Tracks.column (hf : f.Tracks placed) (s : Option Span) : FirstBehind placed (Meets · s) (f.column s) := by
  intro n
  cases s with
  | none =>
    rw [Frontier.column, hf.used n]
    exact forall₂_congr fun p _ => ⟨fun hlt _ => hlt trivial, fun hlt _ => hlt (.inr (.inl rfl))⟩
  | some t =>
    rw [column_shared_le, hf.barrier n]
    constructor
    · rintro ⟨hbarrier, hfree⟩ p hp (hnone | hnone | ⟨r, hpr, htr⟩)
      · exact hbarrier p hp hnone
      · cases hnone
      · exact (hf.free r n).mp (hfree r (htr t rfl)) p hp hpr
    · intro hmeets
      refine ⟨fun p hp hnone => hmeets p hp (.inl hnone), fun r htr => ?_⟩
      rw [hf.free r n]
      exact fun p hp hpr => hmeets p hp (.inr (.inr ⟨r, hpr, fun u hu => Option.some.inj hu ▸ htr⟩))

theorem Tracks.take (hf : f.Tracks placed) (s : Option Span) :
    (f.take (f.column s) s).Tracks (placed ++ [(s, f.column s)]) := by
  have hbehind := (hf.column s).behind
  cases s with
  | none =>
    have hall (p) (hp : p ∈ placed) : p.2 < f.column none := hbehind p hp (.inr (.inl rfl))
    refine ⟨fun r => ?_, ?_, ?_⟩
    · exact .last (Q := (Covers · r)) (by simp [Covers]) fun p hp _ => hall p hp
    · exact .last (Q := (· = none)) rfl fun p hp _ => hall p hp
    · exact .last (Q := fun _ => True) trivial fun p hp _ => hall p hp
  | some t =>
    have hcovers (r : Nat) : Covers (some t) r ↔ t.contains r = true := by simp [Covers]
    refine ⟨fun r => ?_, hf.barrier.skip (by simp), hf.used.widen trivial⟩
    simp only [Frontier.take]
    split
    · next hr =>
      have hself := (hcovers r).mpr hr
      exact .last (Q := (Covers · r)) hself fun p hp hpr => hbehind p hp (.inr (.inr ⟨r, hpr, hself⟩))
    · next hr => exact (hf.free r).skip fun hself => hr ((hcovers r).mp hself)

def after (f : Frontier) : List (Option Span) → Frontier
  | [] => f
  | s :: ss => (f.take (f.column s) s).after ss

theorem Tracks.after (hf : f.Tracks placed) (ss : List (Option Span)) :
    (f.after ss).Tracks (placed ++ ss.zip (assignColumns f ss)) := by
  induction ss generalizing f placed with
  | nil => rwa [List.zip_nil_left, List.append_nil]
  | cons s ss ih =>
    rw [assignColumns, List.zip_cons_cons, List.append_cons]
    exact ih (hf.take s)

end Frontier

theorem length_assignColumns (f : Frontier) (ss : List (Option Span)) : (assignColumns f ss).length = ss.length := by
  induction ss generalizing f with
  | nil => rfl
  | cons s ss ih => rw [assignColumns, List.length_cons, List.length_cons, ih]

theorem assignColumns_append (f : Frontier) (ss ts : List (Option Span)) :
    assignColumns f (ss ++ ts) = assignColumns f ss ++ assignColumns (f.after ss) ts := by
  induction ss generalizing f with
  | nil => rfl
  | cons s ss ih => rw [List.cons_append, assignColumns, ih]; rfl

theorem column_after_le_iff {ss : List (Option Span)} :
    (Frontier.initial.after ss).column s ≤ n ↔ ∀ (i : Nat) (p : Option Span) (m : Nat),
      ss[i]? = some p → (assignColumns .initial ss)[i]? = some m → Meets p s → m < n := by
  rw [(Frontier.tracks_initial.after ss).column s n, List.nil_append]
  constructor
  · intro hbehind i p m hp hm hmeets
    exact hbehind (p, m) (List.mem_of_getElem? (List.getElem?_zip_eq_some.mpr ⟨hp, hm⟩)) hmeets
  · intro hbehind p hp hmeets
    obtain ⟨i, hi⟩ := List.getElem?_of_mem hp
    obtain ⟨hpi, hmi⟩ := List.getElem?_zip_eq_some.mp hi
    exact hbehind i p.1 p.2 hpi hmi hmeets

theorem exists_append_of_getElem? {α : Type} {as : List α} {a : α} (ha : as[k]? = some a) :
    ∃ before later, as = before ++ a :: later ∧ before.length = k := by
  obtain ⟨hk, rfl⟩ := List.getElem?_eq_some_iff.mp ha
  refine ⟨as.take k, as.drop (k + 1), ?_, List.length_take_of_le (Nat.le_of_lt hk)⟩
  rw [List.getElem_cons_drop, List.take_append_drop]

theorem assignColumns_le_iff {ss : List (Option Span)} (hs : ss[k]? = some s)
    (hcol : (assignColumns .initial ss)[k]? = some col) :
    col ≤ n ↔ ∀ (i : Nat) (p : Option Span) (m : Nat),
      i < k → ss[i]? = some p → (assignColumns .initial ss)[i]? = some m → Meets p s → m < n := by
  obtain ⟨before, later, rfl, rfl⟩ := exists_append_of_getElem? hs
  have hlength := length_assignColumns .initial before
  rw [assignColumns_append, assignColumns] at hcol ⊢
  rw [List.getElem?_append_right (Nat.le_of_eq hlength), hlength, Nat.sub_self, List.getElem?_cons_zero,
    Option.some.injEq] at hcol
  rw [← hcol, column_after_le_iff]
  constructor
  · intro hbehind i p m hi hp hm
    rw [List.getElem?_append_left hi] at hp
    rw [List.getElem?_append_left (by omega)] at hm
    exact hbehind i p m hp hm
  · intro hbehind i p m hp hm
    have hi := (List.getElem?_eq_some_iff.mp hp).1
    exact hbehind i p m hi (by rwa [List.getElem?_append_left hi]) (by rwa [List.getElem?_append_left (by omega)])

end CircuitDesk
