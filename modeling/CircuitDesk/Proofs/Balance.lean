import CircuitDesk.Proofs.Tallies
import CircuitDesk.Proofs.Wires

namespace CircuitDesk

namespace Tally

variable {entries : List (Bytes × Int64)} {a b name : Bytes} {m n : Int64}

/-- All numbers together, added in 64 bits. -/
def sum (t : Tally) : Int64 := t.entries.foldr (fun e n => e.2 + n) 0

def whole (t : Tally) : Int := (t.entries.map (·.2.toInt)).sum

theorem sum_add (t : Tally) (name : Bytes) (n : Int64) : (t.add name n).sum = t.sum + n := by
  obtain ⟨entries⟩ := t
  change (addTo name n entries).foldr (fun e n => e.2 + n) 0 = entries.foldr (fun e n => e.2 + n) 0 + n
  induction entries with
  | nil => exact Int64.add_comm n 0
  | cons e entries ih =>
    obtain ⟨k, v⟩ := e
    rw [addTo]
    split
    · rw [List.foldr_cons, List.foldr_cons, Int64.add_assoc, Int64.add_comm n, Int64.add_assoc]
    · split
      · rw [List.foldr_cons, Int64.add_comm]
      · rw [List.foldr_cons, List.foldr_cons, ih, Int64.add_assoc]

theorem sum_count (names : List Bytes) : (count names).sum = .ofNat names.length := by
  have run (t : Tally) : ((names.map (·, (1 : Int64))).foldl (fun t x => t.add x.1 x.2) t).sum =
      t.sum + .ofNat names.length := by
    induction names generalizing t with
    | nil => exact (Int64.add_zero t.sum).symm
    | cons name names ih =>
      rw [List.map_cons, List.foldl_cons, ih, sum_add, List.length_cons, Nat.add_comm, Int64.ofNat_add,
        Int64.add_assoc]
      rfl
  have hstart := run empty
  rwa [show empty.sum = 0 from rfl, Int64.zero_add] at hstart

theorem get_count (names : List Bytes) (name : Bytes) : (count names).get name = .ofNat (names.count name) := by
  have htotal : total (names.map (·, 1)) name = names.count name := by
    induction names with
    | nil => rfl
    | cons k names ih =>
      rw [List.map_cons, total_cons, ih, List.count_cons]
      by_cases hk : k = name
      · simp [hk, Int.add_comm]
      · simp [hk]
  apply Int64.toInt_inj.mp
  rw [count, toInt_get_ofList, htotal]
  exact (Int64.toInt_ofNat' ..).symm

structure ComeTo (entries : List (Bytes × Int64)) (k : Int) : Prop where
  nonneg : ∀ e ∈ entries, 0 ≤ e.2.toInt
  whole : (entries.map (·.2.toInt)).sum = k

theorem ComeTo.tail {e : Bytes × Int64} {k : Int} (h : ComeTo (e :: entries) k) : ComeTo entries (k - e.2.toInt) where
  nonneg := fun d hd => h.nonneg d (List.mem_cons_of_mem e hd)
  whole := by
    have hwhole := h.whole
    rw [List.map_cons, List.sum_cons] at hwhole
    omega

theorem ComeTo.cons {e : Bytes × Int64} {k : Int} (he : 0 ≤ e.2.toInt) (h : ComeTo entries k) :
    ComeTo (e :: entries) (e.2.toInt + k) where
  nonneg := List.forall_mem_cons.mpr ⟨he, h.nonneg⟩
  whole := by rw [List.map_cons, List.sum_cons, h.whole]

theorem ComeTo.sum_nonneg {k : Int} (h : ComeTo entries k) : 0 ≤ k := by
  obtain ⟨hnonneg, rfl⟩ := h
  induction entries with
  | nil => exact Int.le_refl 0
  | cons e entries ih =>
    obtain ⟨he, hentries⟩ := List.forall_mem_cons.mp hnonneg
    rw [List.map_cons, List.sum_cons]
    exact Int.add_nonneg he (ih hentries)

theorem ComeTo.addTo {k : Int} (h : ComeTo entries k) (hlt : k + 1 < Integer64.bound) (name : Bytes) :
    ComeTo (addTo name 1 entries) (k + 1) := by
  induction entries generalizing k with
  | nil =>
    have hzero : k = 0 := h.whole.symm
    subst hzero
    exact .cons (e := (name, 1)) Int.one_nonneg ⟨by simp, rfl⟩
  | cons e entries ih =>
    obtain ⟨key, v⟩ := e
    have hv : 0 ≤ v.toInt := h.nonneg _ List.mem_cons_self
    have hrest := h.tail
    have hle : v.toInt ≤ k := by
      have hnonneg := hrest.sum_nonneg
      simp only at hnonneg
      omega
    rw [Tally.addTo]
    split
    · have hsum : (v + 1).toInt = v.toInt + 1 := by
        rw [Int64.toInt_add]
        exact (bmod_eq_self_iff (by simp; omega)).mpr (by simp; omega)
      have hcons := ComeTo.cons (e := (key, v + 1)) (by simp only [hsum]; omega) hrest
      simp only [hsum] at hcons
      rwa [show v.toInt + 1 + (k - v.toInt) = k + 1 by omega] at hcons
    · split
      · have hcons := ComeTo.cons (e := (name, 1)) Int.one_nonneg h
        rwa [show ((name, (1 : Int64)).2.toInt + k) = k + 1 from Int.add_comm 1 k] at hcons
      · have hcons := ComeTo.cons (e := (key, v)) hv (ih hrest (by simp only; omega))
        rwa [show v.toInt + (k - v.toInt + 1) = k + 1 by omega] at hcons

theorem whole_count {names : List Bytes} (hlt : names.length < Integer64.bound) :
    (count names).whole = names.length := by
  have run (t : Tally) (k : Int) (h : ComeTo t.entries k) (hk : k + names.length < Integer64.bound) :
      ComeTo ((names.map (·, (1 : Int64))).foldl (fun t x => t.add x.1 x.2) t).entries (k + names.length) := by
    induction names generalizing t k with
    | nil => simpa using h
    | cons name names ih =>
      rw [List.length_cons] at hk hlt ⊢
      have hstep : ComeTo (t.add name 1).entries (k + 1) := h.addTo (by omega) name
      rw [List.map_cons, List.foldl_cons, show k + ((names.length + 1 : Nat) : Int) = k + 1 + names.length by omega]
      exact ih (by omega) _ _ hstep (by omega)
  have hcount := run empty 0 ⟨by simp [empty], rfl⟩ (by omega)
  rw [Int.zero_add] at hcount
  exact hcount.whole

theorem addTo_addTo (name : Bytes) (m n : Int64) (entries : List (Bytes × Int64)) :
    addTo name m (addTo name n entries) = addTo name (n + m) entries := by
  induction entries with
  | nil => simp [addTo]
  | cons e entries ih =>
    obtain ⟨k, v⟩ := e
    by_cases hk : k = name
    · simp [addTo, hk, Int64.add_assoc]
    · by_cases hlt : name < k
      · simp [addTo, hk, hlt]
      · simp [addTo, hk, hlt, ih]

theorem addTo_comm_of_lt (h : a < b) (m n : Int64) (entries : List (Bytes × Int64)) :
    addTo a m (addTo b n entries) = addTo b n (addTo a m entries) := by
  have hba : ¬ b < a := List.lt_asymm h
  have hab : a ≠ b := by
    rintro rfl
    exact hba h
  induction entries with
  | nil => simp [addTo, h, hba, hab, hab.symm]
  | cons e entries ih =>
    obtain ⟨k, v⟩ := e
    by_cases hka : k = a
    · subst hka
      simp [addTo, hba, hab]
    · by_cases hak : a < k
      · -- the first name is put in front, and the second one comes somewhere behind it
        by_cases hkb : k = b
        · simp [addTo, hkb, h, hba, hab, hab.symm]
        · by_cases hbk : b < k <;> simp [addTo, h, hba, hab, hab.symm, hka, hkb, hak, hbk]
      · have hbk : ¬ b < k := fun hlt => hak (List.lt_trans h hlt)
        have hkb : k ≠ b := by
          rintro rfl
          exact hak h
        simp [addTo, hka, hkb, hak, hbk, ih]

theorem addTo_comm (a b : Bytes) (m n : Int64) (entries : List (Bytes × Int64)) :
    addTo a m (addTo b n entries) = addTo b n (addTo a m entries) := by
  by_cases hab : a = b
  · subst hab
    rw [addTo_addTo, addTo_addTo, Int64.add_comm]
  · by_cases hlt : a < b
    · exact addTo_comm_of_lt hlt m n entries
    · exact (addTo_comm_of_lt (lt_of_not_lt (Ne.symm hab) hlt) n m entries).symm

theorem ofList_of_perm {items items' : List (Bytes × Int64)} (h : items.Perm items') :
    ofList items = ofList items' := by
  apply h.foldl_eq'
  rintro ⟨b, n⟩ - ⟨a, m⟩ - t
  exact congrArg Tally.mk (addTo_comm a b m n t.entries)

theorem names_addTo {entries' : List (Bytes × Int64)} (h : entries.map Prod.fst = entries'.map Prod.fst) (name : Bytes)
    (m n : Int64) : (addTo name m entries).map Prod.fst = (addTo name n entries').map Prod.fst := by
  induction entries generalizing entries' with
  | nil =>
    rw [List.map_eq_nil_iff.mp h.symm]
    rfl
  | cons e entries ih =>
    obtain ⟨d, entries', rfl, hname, hrest⟩ := List.map_eq_cons_iff.mp h.symm
    obtain ⟨k, v⟩ := e
    obtain ⟨k', v'⟩ := d
    obtain rfl : k' = k := hname
    rw [addTo, addTo]
    split
    · simp [hrest]
    · split
      · simp [hrest]
      · simp [ih hrest.symm]

theorem names_ofList {items items' : List (Bytes × Int64)} (h : items.map Prod.fst = items'.map Prod.fst) :
    (ofList items).entries.map Prod.fst = (ofList items').entries.map Prod.fst := by
  have run (t t' : Tally) (ht : t.entries.map Prod.fst = t'.entries.map Prod.fst) :
      (items.foldl (fun t x => t.add x.1 x.2) t).entries.map Prod.fst =
        (items'.foldl (fun t x => t.add x.1 x.2) t').entries.map Prod.fst := by
    induction items generalizing items' t t' with
    | nil =>
      rw [List.map_eq_nil_iff.mp h.symm]
      exact ht
    | cons item items ih =>
      obtain ⟨item', items', rfl, hname, hrest⟩ := List.map_eq_cons_iff.mp h.symm
      obtain ⟨k, n⟩ := item
      obtain ⟨k', n'⟩ := item'
      obtain rfl : k' = k := hname
      exact ih hrest.symm _ _ (names_addTo ht k' n n')
  exact run empty empty rfl

end Tally

namespace Gate

inductive Controlled : Gate → Prop
  | named {op : GateOp} {inverted : Bool} {w : Wire} {control : Control} : control.refs ≠ [] →
      Controlled (.named op inverted w control)
  | call {k : Call} : k.control.refs ≠ [] → Controlled (.call k)

inductive Inverted : Gate → Prop
  | named {op : GateOp} {w : Wire} {control : Control} : Inverted (.named op true w control)
  | rotation {op : RotationOp} {timestep : Binary64} {w : Wire} : Inverted (.rotation op true timestep w)
  | call {k : Call} : k.inverted = true → Inverted (.call k)

/-- The wires that a gate names, as its target, in one of its lists or under a label. -/
inductive Touches : Gate → Wire → Prop
  | named {op : GateOp} {inverted : Bool} {w : Wire} {control : Control} : Touches (.named op inverted w control) w
  | control {op : GateOp} {inverted : Bool} {w : Wire} {control : Control} {r : ControlRef} : r ∈ control.refs →
      Touches (.named op inverted w control) r.wire
  | rotation {op : RotationOp} {inverted : Bool} {timestep : Binary64} {w : Wire} :
      Touches (.rotation op inverted timestep w) w
  | init {value : Bool} {w : Wire} {label : Bytes} : Touches (.init value w label) w
  | label {text : Bytes} {labels : List WireLabel} {l : WireLabel} : l ∈ labels → Touches (.comment text labels) l.wire
  | input {k : Call} {w : Wire} : w ∈ k.inputs → Touches (.call k) w
  | output {k : Call} {w : Wire} : w ∈ k.outputs → Touches (.call k) w
  | callControl {k : Call} {r : ControlRef} : r ∈ k.control.refs → Touches (.call k) r.wire

theorem isControlled_iff {g : Gate} : g.isControlled ↔ g.Controlled := by
  constructor
  · intro h
    cases g with
    | named op inverted w control => exact .named (by simpa [isControlled, Control.isControlled] using h)
    | call k => exact .call (by simpa [isControlled, Control.isControlled] using h)
    | rotation => cases h
    | init => cases h
    | comment => cases h
  · rintro (h | h) <;> simpa [isControlled, Control.isControlled] using h

theorem isInverted_iff {g : Gate} : g.isInverted ↔ g.Inverted := by
  constructor
  · intro h
    cases g with
    | named op inverted w control =>
      obtain rfl : inverted = true := h
      exact .named
    | rotation op inverted timestep w =>
      obtain rfl : inverted = true := h
      exact .rotation
    | call k => exact .call h
    | init => cases h
    | comment => cases h
  · rintro (_ | _ | h)
    · rfl
    · rfl
    · exact h

instance : DecidablePred Controlled := fun _ => decidable_of_iff _ isControlled_iff

instance : DecidablePred Inverted := fun _ => decidable_of_iff _ isInverted_iff

theorem mem_wires_iff_touches {g : Gate} {w : Wire} : w ∈ g.wires ↔ g.Touches w := by
  constructor
  · intro h
    cases g with
    | named op inverted w' control =>
      rcases List.mem_cons.mp h with rfl | h
      · exact .named
      · obtain ⟨r, hr, rfl⟩ := List.mem_map.mp h
        exact .control hr
    | rotation op inverted timestep w' =>
      obtain rfl := List.mem_singleton.mp h
      exact .rotation
    | init value w' label =>
      obtain rfl := List.mem_singleton.mp h
      exact .init
    | comment text labels =>
      obtain ⟨l, hl, rfl⟩ := List.mem_map.mp h
      exact .label hl
    | call k =>
      rcases List.mem_append.mp h with h | h
      · rcases List.mem_append.mp (mem_firstOccurrences.mp h) with h | h
        · exact .input h
        · exact .output h
      · obtain ⟨r, hr, rfl⟩ := List.mem_map.mp h
        exact .callControl hr
  · intro h
    cases h with
    | named => exact List.mem_cons_self
    | control hr => exact List.mem_cons_of_mem _ (List.mem_map_of_mem hr)
    | rotation => exact List.mem_singleton_self _
    | init => exact List.mem_singleton_self _
    | label hl => exact List.mem_map_of_mem hl
    | input hw => exact List.mem_append_left _ (mem_firstOccurrences.mpr (List.mem_append_left _ hw))
    | output hw => exact List.mem_append_left _ (mem_firstOccurrences.mpr (List.mem_append_right _ hw))
    | callControl hr => exact List.mem_append_right _ (List.mem_map_of_mem hr)

end Gate

namespace Circuit

variable {c : Circuit}

def ofKind (gates : List Gate) (kind : Bytes) : Nat := (gates.map Gate.kindName).count kind

theorem ofKind_cons (g : Gate) (gates : List Gate) (kind : Bytes) :
    ofKind (g :: gates) kind = ofKind gates kind + if g.kindName == kind then 1 else 0 := List.count_cons

theorem gates_add_comments (gates : List Gate) :
    gates.countP (fun g => !g.isComment) + ofKind gates "Comment" = gates.length := by
  have hcomment (g : Gate) : (g.kindName == Bytes.ofString "Comment") = g.isComment := by cases g <;> rfl
  induction gates with
  | nil => rfl
  | cons g gates ih =>
    rw [List.countP_cons, ofKind_cons, hcomment, List.length_cons]
    cases g.isComment <;> simp <;> omega

theorem length_operations (gates : List Gate) :
    (gates.filterMap Gate.operation?).length =
      ofKind gates "QGate" + ofKind gates "QRot" + ofKind gates "QInit" := by
  induction gates with
  | nil => rfl
  | cons g gates ih =>
    have hstep : (g.operation?.toList).length =
        (if g.kindName == Bytes.ofString "QGate" then 1 else 0) +
          (if g.kindName == Bytes.ofString "QRot" then 1 else 0) +
          (if g.kindName == Bytes.ofString "QInit" then 1 else 0) := by
      cases g <;> rfl
    have hcons : ((g :: gates).filterMap Gate.operation?).length =
        (g.operation?.toList).length + (gates.filterMap Gate.operation?).length := by
      cases hop : g.operation? <;> simp [hop, Nat.add_comm]
    rw [hcons, ih, hstep, ofKind_cons, ofKind_cons, ofKind_cons]
    omega

theorem length_calls (gates : List Gate) : (gates.filterMap Gate.call?).length = ofKind gates "Subroutine" := by
  have hcall (g : Gate) : (g.kindName == Bytes.ofString "Subroutine") = g.call?.isSome := by cases g <;> rfl
  rw [List.length_filterMap_eq_countP, ofKind, List.count_eq_countP, List.countP_map]
  exact List.countP_congr fun g _ => by simp [hcall]

theorem wires_strictly_ascending (c : Circuit) : c.wires.Pairwise (· < ·) :=
  ((wires_ascending c).and (wires_nodup c)).imp fun h => Int64.lt_of_le_of_ne h.1 h.2

theorem mem_wires_iff_mentions {w : Wire} :
    w ∈ c.wires ↔ (∃ d ∈ c.inputs, d.wire = w) ∨ (∃ d ∈ c.outputs, d.wire = w) ∨ ∃ g ∈ c.gates, g.Touches w := by
  simp only [mem_wires, mentionedWires, List.mem_append, List.mem_map, List.mem_flatMap, Gate.mem_wires_iff_touches]
  rw [or_assoc, or_comm (a := ∃ g ∈ c.gates, g.Touches w)]

theorem statistics_of_perm {gates : List Gate} (h : gates.Perm c.gates) :
    { c with gates := gates }.statistics = c.statistics := by
  have hwires := congrArg List.length (wires_of_perm h)
  rw [(wires_perm _).length_eq, (wires_perm _).length_eq] at hwires
  simp only [statistics, Tally.count, Statistics.mk.injEq]
  refine ⟨h.countP_eq _, h.countP_eq _, h.countP_eq _, hwires, ?_, ?_, ?_, ?_⟩
  · exact Tally.ofList_of_perm ((h.map _).map _)
  · exact Tally.ofList_of_perm ((h.filterMap _).map _)
  · exact Tally.ofList_of_perm (((h.filterMap _).map _).map _)
  · exact Tally.ofList_of_perm ((h.filterMap _).map _)

theorem length_callNames (gates : List Gate) :
    ((gates.filterMap Gate.call?).map Call.name).length = ofKind gates "Subroutine" := by
  rw [List.length_map, length_calls]

theorem sum_byKind (c : Circuit) : c.statistics.byKind.sum = .ofNat c.gates.length := by
  rw [statistics, Tally.sum_count, List.length_map]

theorem get_byKind (c : Circuit) (kind : Bytes) : c.statistics.byKind.get kind = .ofNat (ofKind c.gates kind) :=
  Tally.get_count _ kind

theorem ofKind_le (gates : List Gate) (kind : Bytes) : ofKind gates kind ≤ gates.length := by
  have hle : ofKind gates kind ≤ (gates.map Gate.kindName).length := List.count_le_length
  rwa [List.length_map] at hle

theorem toInt_get_byKind (h : c.gates.length < Integer64.bound) (kind : Bytes) :
    (c.statistics.byKind.get kind).toInt = ofKind c.gates kind := by
  rw [get_byKind]
  exact Int64.toInt_ofNat_of_lt (Nat.lt_of_le_of_lt (ofKind_le c.gates kind) h)

theorem whole_byKind (h : c.gates.length < Integer64.bound) : c.statistics.byKind.whole = c.gates.length := by
  rw [statistics, Tally.whole_count (by rwa [List.length_map]), List.length_map]

theorem whole_byOperation (h : c.gates.length < Integer64.bound) :
    c.statistics.byOperation.whole = (c.gates.filterMap Gate.operation?).length := by
  have hle : (c.gates.filterMap Gate.operation?).length ≤ c.gates.length := List.length_filterMap_le ..
  exact Tally.whole_count (Nat.lt_of_le_of_lt hle h)

theorem whole_calls (h : c.gates.length < Integer64.bound) :
    c.statistics.calls.whole = ofKind c.gates "Subroutine" := by
  have hle := Nat.lt_of_le_of_lt (ofKind_le c.gates "Subroutine") h
  rw [← length_callNames] at hle ⊢
  exact Tally.whole_count hle

/-- The counts of a circuit agree with each other, with its gates and with the rows of its drawing. The sums are those
of 64 bits, and exact as long as the gates can be numbered in them. -/
structure Balanced (c : Circuit) : Prop where
  kinds : c.statistics.byKind.sum = .ofNat c.gates.length
  gates : .ofNat c.statistics.gates = c.statistics.byKind.sum - c.statistics.byKind.get "Comment"
  operations : c.statistics.byOperation.sum =
    c.statistics.byKind.get "QGate" + c.statistics.byKind.get "QRot" + c.statistics.byKind.get "QInit"
  calls : c.statistics.calls.sum = c.statistics.byKind.get "Subroutine"
  names : c.statistics.calls.entries.map Prod.fst = c.statistics.applications.entries.map Prod.fst
  controlled : c.statistics.controlled = c.gates.countP Gate.Controlled
  inverted : c.statistics.inverted = c.gates.countP Gate.Inverted
  wires : c.statistics.wires = c.wires.length
  rows : c.wires.Pairwise (· < ·) ∧ ∀ w, w ∈ c.wires ↔
    (∃ d ∈ c.inputs, d.wire = w) ∨ (∃ d ∈ c.outputs, d.wire = w) ∨ ∃ g ∈ c.gates, g.Touches w
  order : ∀ gates : List Gate, gates.Perm c.gates → { c with gates := gates }.statistics = c.statistics
  exact : c.gates.length < Integer64.bound →
    c.statistics.byKind.whole = c.gates.length ∧
      c.statistics.gates = c.statistics.byKind.whole - (c.statistics.byKind.get "Comment").toInt ∧
      c.statistics.byOperation.whole = (c.statistics.byKind.get "QGate").toInt +
        (c.statistics.byKind.get "QRot").toInt + (c.statistics.byKind.get "QInit").toInt ∧
      c.statistics.calls.whole = (c.statistics.byKind.get "Subroutine").toInt

theorem statistics_balanced (c : Circuit) : c.Balanced where
  kinds := sum_byKind c
  gates := by
    rw [sum_byKind, get_byKind, ← gates_add_comments c.gates, Int64.ofNat_add, Int64.add_sub_cancel]
    rfl
  operations := by
    rw [get_byKind, get_byKind, get_byKind, statistics, Tally.sum_count, length_operations, Int64.ofNat_add,
      Int64.ofNat_add]
  calls := by rw [get_byKind, statistics, Tally.sum_count, length_callNames]
  names := by
    apply Tally.names_ofList
    simp only [List.map_map, Function.comp_def]
  controlled := List.countP_congr fun g _ => by simp [Gate.isControlled_iff]
  inverted := List.countP_congr fun g _ => by simp [Gate.isInverted_iff]
  wires := (wires_perm c).length_eq.symm
  rows := ⟨wires_strictly_ascending c, fun _ => mem_wires_iff_mentions⟩
  order := fun _ => statistics_of_perm
  exact := by
    intro hlt
    have hgates := gates_add_comments c.gates
    refine ⟨whole_byKind hlt, ?_, ?_, ?_⟩
    · rw [whole_byKind hlt, toInt_get_byKind hlt, ← hgates]
      simp [statistics]
    · rw [whole_byOperation hlt, toInt_get_byKind hlt, toInt_get_byKind hlt, toInt_get_byKind hlt, length_operations]
      simp
    · rw [whole_calls hlt, toInt_get_byKind hlt]

end Circuit

end CircuitDesk
