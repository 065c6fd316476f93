import Mathlib.Algebra.BigOperators.Group.List.Basic
import Mathlib.Algebra.Ring.Int.Defs
import CircuitDesk.Proofs.Built
import CircuitDesk.Proofs.RoundTrip
import CircuitDesk.Statistics

namespace CircuitDesk

namespace Tally

variable {entries : List (Bytes × Int64)} {name other : Bytes} {n : Int64} {t : Tally}

def Ascending (entries : List (Bytes × Int64)) : Prop := entries.Pairwise (·.1 < ·.1)

def total (items : List (Bytes × Int64)) (name : Bytes) : Int := ((items.filter (·.1 = name)).map (·.2.toInt)).sum

theorem total_cons (k : Bytes) (v : Int64) (items : List (Bytes × Int64)) (name : Bytes) :
    total ((k, v) :: items) name = (if k = name then v.toInt else 0) + total items name := by
  by_cases hk : k = name
  · simp [total, hk]
  · simp [total, hk]

theorem name_of_mem_addTo {e : Bytes × Int64} (he : e ∈ addTo name n entries) :
    e.1 = name ∨ ∃ d ∈ entries, d.1 = e.1 := by
  induction entries with
  | nil =>
    cases List.mem_singleton.mp he
    exact .inl rfl
  | cons d entries ih =>
    obtain ⟨k, v⟩ := d
    rw [addTo] at he
    split at he
    · rcases List.mem_cons.mp he with rfl | he
      · exact .inr ⟨(k, v), by simp, rfl⟩
      · exact .inr ⟨e, by simp [he], rfl⟩
    · split at he
      · rcases List.mem_cons.mp he with rfl | he
        · exact .inl rfl
        · exact .inr ⟨e, he, rfl⟩
      · rcases List.mem_cons.mp he with rfl | he
        · exact .inr ⟨(k, v), by simp, rfl⟩
        · obtain hname | ⟨d, hd, hname⟩ := ih he
          · exact .inl hname
          · exact .inr ⟨d, by simp [hd], hname⟩

theorem lt_of_not_lt {a b : Bytes} (hne : a ≠ b) (hnot : ¬ b < a) : a < b :=
  List.not_le.mp fun hle => hne (List.le_antisymm (List.not_lt.mp hnot) hle)

theorem Ascending.addTo (h : Ascending entries) : Ascending (addTo name n entries) := by
  induction entries with
  | nil => exact List.pairwise_singleton ..
  | cons d entries ih =>
    obtain ⟨k, v⟩ := d
    obtain ⟨hfirst, hrest⟩ := List.pairwise_cons.mp h
    rw [Tally.addTo]
    split
    · exact List.pairwise_cons.mpr ⟨hfirst, hrest⟩
    · next hne =>
      split
      · next hlt =>
        refine List.pairwise_cons.mpr ⟨fun e he => ?_, h⟩
        rcases List.mem_cons.mp he with rfl | he
        · exact hlt
        · exact List.lt_trans hlt (hfirst e he)
      · next hnot =>
        refine List.pairwise_cons.mpr ⟨fun e he => ?_, ih hrest⟩
        obtain hname | ⟨d, hd, hname⟩ := name_of_mem_addTo he
        · rw [hname]
          exact lt_of_not_lt hne hnot
        · rw [← hname]
          exact hfirst d hd

theorem lookup_of_lt (h : Ascending entries) (hlt : ∀ d ∈ entries.head?, name < d.1) : entries.lookup name = none := by
  rw [List.lookup_eq_none_iff]
  intro d hd
  rw [bne_iff_ne]
  rintro rfl
  cases entries with
  | nil => cases hd
  | cons e entries =>
    have he := hlt e rfl
    rcases List.mem_cons.mp hd with rfl | hd
    · exact List.lt_irrefl _ he
    · exact List.lt_irrefl _ (List.lt_trans he ((List.pairwise_cons.mp h).1 d hd))

theorem lookup_addTo (h : Ascending entries) :
    (addTo name n entries).lookup other =
      if other = name then some ((entries.lookup name).getD 0 + n) else entries.lookup other := by
  induction entries with
  | nil =>
    by_cases hother : other = name
    · simp [addTo, hother]
    · simp [addTo, List.lookup_cons, beq_eq_false_iff_ne.mpr hother, hother]
  | cons d entries ih =>
    obtain ⟨k, v⟩ := d
    rw [addTo]
    split
    · next hk =>
      subst hk
      by_cases hother : other = k
      · simp [hother]
      · simp [List.lookup_cons, beq_eq_false_iff_ne.mpr hother, hother]
    · next hne =>
      split
      · next hlt =>
        have hnone : ((k, v) :: entries).lookup name = none := lookup_of_lt h fun d hd => by cases hd; exact hlt
        by_cases hother : other = name
        · simp [hother, hnone]
        · rw [if_neg hother, List.lookup_cons, beq_eq_false_iff_ne.mpr hother]
      · next hnot =>
        have hrest := ih (List.pairwise_cons.mp h).2
        by_cases hother : other = k
        · subst hother
          simp [hne]
        · simp only [List.lookup_cons, beq_eq_false_iff_ne.mpr hother, beq_eq_false_iff_ne.mpr (Ne.symm hne), hrest]

theorem get_add (h : Ascending t.entries) :
    (t.add name n).get other = t.get other + if name = other then n else 0 := by
  rw [get, add, lookup_addTo h]
  by_cases hother : other = name
  · subst hother
    simp [get]
  · simp [get, hother, Ne.symm hother]

theorem toInt_get_foldl (items : List (Bytes × Int64)) (h : Ascending t.entries) (name : Bytes) :
    ((items.foldl (fun t (k, n) => t.add k n) t).get name).toInt =
      ((t.get name).toInt + total items name).bmod (2 * Integer64.bound) := by
  induction items generalizing t with
  | nil => exact ((congrArg (Int.bmod · _) (Int.add_zero _)).trans (t.get name).toInt_bmod).symm
  | cons item items ih =>
    obtain ⟨k, v⟩ := item
    have hvalue : ((t.add k v).get name).toInt =
        ((t.get name).toInt + if k = name then v.toInt else 0).bmod (2 * Integer64.bound) := by
      rw [get_add h, Int64.toInt_add]
      split <;> rfl
    rw [List.foldl_cons, ih (t := t.add k v) h.addTo, hvalue, Int.bmod_add_bmod, total_cons, Int.add_assoc]

theorem toInt_get_ofList (items : List (Bytes × Int64)) (name : Bytes) :
    ((ofList items).get name).toInt = (total items name).bmod (2 * Integer64.bound) := by
  have hempty : Ascending empty.entries := List.Pairwise.nil
  have hsum := toInt_get_foldl items hempty name
  rwa [show (empty.get name).toInt = 0 from rfl, Int.zero_add] at hsum

theorem bmod_eq_self_iff {s : Int} (h : 0 ≤ s) : s.bmod (2 * Integer64.bound) = s ↔ s < Integer64.bound := by
  simp only [Int.bmod, Integer64.bound]
  omega

end Tally

namespace Circuit

variable {c : Circuit} {name : Bytes}

def callsTo (c : Circuit) (name : Bytes) : List Call := (c.gates.filterMap Gate.call?).filter (·.name = name)

/-- How often a circuit applies a subroutine: the sum of the repetitions of its calls to it. -/
def timesApplied (c : Circuit) (name : Bytes) : Int := ((c.callsTo name).map (·.repetitions.toInt)).sum

theorem mem_gates_of_callsTo {k : Call} (h : k ∈ c.callsTo name) : .call k ∈ c.gates := by
  obtain ⟨g, hg, hcall⟩ := List.mem_filterMap.mp (List.mem_filter.mp h).1
  cases g with
  | call k' =>
    cases hcall
    exact hg
  | _ => cases hcall

theorem total_applications (c : Circuit) (name : Bytes) :
    Tally.total ((c.gates.filterMap Gate.call?).map fun k => (k.name, k.repetitions)) name = c.timesApplied name := by
  rw [Tally.total, List.filter_map, List.map_map]
  rfl

theorem total_calls (c : Circuit) (name : Bytes) :
    Tally.total (((c.gates.filterMap Gate.call?).map Call.name).map (·, 1)) name = (c.callsTo name).length := by
  rw [Tally.total, List.map_map, List.filter_map, List.map_map]
  change ((c.callsTo name).map fun _ => (1 : Int)).sum = _
  rw [List.map_const', List.sum_replicate_int, Int.mul_one]

theorem toInt_applications (c : Circuit) (name : Bytes) :
    (c.statistics.applications.get name).toInt = (c.timesApplied name).bmod (2 * Integer64.bound) := by
  rw [← total_applications]
  exact Tally.toInt_get_ofList _ name

theorem toInt_calls (c : Circuit) (name : Bytes) :
    (c.statistics.calls.get name).toInt = ((c.callsTo name).length : Int).bmod (2 * Integer64.bound) := by
  rw [← total_calls]
  exact Tally.toInt_get_ofList _ name

theorem Built.length_le_timesApplied (h : c.Built) (name : Bytes) : (c.callsTo name).length ≤ c.timesApplied name := by
  have hpos : ∀ k ∈ c.callsTo name, 1 ≤ k.repetitions.toInt := fun k hk =>
    Int64.le_iff_toInt_le.mp (h.gates _ (mem_gates_of_callsTo hk)).2
  rw [timesApplied]
  generalize c.callsTo name = ks at hpos ⊢
  induction ks with
  | nil => simp
  | cons k ks ih =>
    obtain ⟨hk, hks⟩ := List.forall_mem_cons.mp hpos
    have hrest := ih hks
    simp only [List.length_cons, List.map_cons, List.sum_cons]
    omega

end Circuit

/-- In a program that was read, applications are counted exactly if and only if they are below `2 ^ 63`, and then each
call counts at least once; beyond this they are brought into the range of 64 bits. -/
theorem applications_of_parse (o : ReadOptions) (text : Bytes) (p : CheckedProgram) (c : Circuit) (name : Bytes)
    (h : Source.parse o text = .ok p)
    (hc : c = p.program.main ∨ ∃ s ∈ p.program.subroutines, c = s.circuit) :
    (c.statistics.applications.get name).toInt = (c.timesApplied name).bmod (2 * Integer64.bound) ∧
      ((c.statistics.applications.get name).toInt = c.timesApplied name ↔ c.timesApplied name < Integer64.bound) ∧
      (c.timesApplied name < Integer64.bound → (c.statistics.calls.get name).toInt = (c.callsTo name).length ∧
        c.statistics.calls.get name ≤ c.statistics.applications.get name) := by
  obtain ⟨-, t, -, -, hread, -, -⟩ := parse_cases h
  have hprogram := Tree.toProgram_built hread
  have hbuilt : c.Built := by
    rcases hc with rfl | ⟨s, hs, rfl⟩
    · exact hprogram.main
    · exact hprogram.subroutines s hs
  have hle := hbuilt.length_le_timesApplied name
  have hnonneg : 0 ≤ c.timesApplied name := Int.le_trans (Int.natCast_nonneg _) hle
  have happlications := Circuit.toInt_applications c name
  refine ⟨happlications, by rw [happlications, Tally.bmod_eq_self_iff hnonneg], fun hlt => ?_⟩
  have hcalls := Circuit.toInt_calls c name
  rw [(Tally.bmod_eq_self_iff hnonneg).mpr hlt] at happlications
  rw [(Tally.bmod_eq_self_iff (Int.natCast_nonneg _)).mpr (Int.lt_of_le_of_lt hle hlt)] at hcalls
  refine ⟨hcalls, Int64.le_iff_toInt_le.mpr ?_⟩
  rw [hcalls, happlications]
  exact hle

def fullCalls : Bytes :=
  Bytes.unlines ["Inputs: 0:Qbit", "Subroutine(x9223372036854775806)[\"f\", shape \"\"] (0) -> (0)",
    "Subroutine*[\"f\", shape \"\"] (0) -> (0)", "Outputs: 0:Qbit"]

theorem applications_of_fullCalls :
    ∃ p, Source.parse .plain fullCalls = .ok p ∧ p.program.main.timesApplied "f" = Integer64.bound - 1 ∧
      ((p.program.main.statistics.applications.get "f").toInt = p.program.main.timesApplied "f" ↔
        p.program.main.timesApplied "f" < Integer64.bound) := by
  have hfull : (Source.parse .plain fullCalls).toOption.map (fun p => p.program.main.timesApplied "f") =
      some (Integer64.bound - 1) := by decide +kernel
  cases h : Source.parse .plain fullCalls with
  | error e =>
    rw [h] at hfull
    cases hfull
  | ok p =>
    rw [h] at hfull
    exact ⟨p, rfl, Option.some.inj hfull,
      (applications_of_parse .plain fullCalls p p.program.main "f" h (.inl rfl)).2.1⟩

def overfullCalls : Bytes :=
  Bytes.unlines ["Inputs: 0:Qbit", "Subroutine(x9223372036854775807)[\"f\", shape \"\"] (0) -> (0)",
    "Subroutine[\"f\", shape \"\"] (0) -> (0)", "Outputs: 0:Qbit"]

/-- Two calls whose repetitions come to one more: they are counted as `-2 ^ 63` applications. -/
theorem applications_lt_calls :
    ∃ p, Source.parse .plain overfullCalls = .ok p ∧ p.program.main.timesApplied "f" = Integer64.bound ∧
      (p.program.main.statistics.applications.get "f").toInt = -Integer64.bound ∧
      p.program.main.statistics.applications.get "f" < p.program.main.statistics.calls.get "f" := by
  have hwrapped : (Source.parse .plain overfullCalls).toOption.any fun p : CheckedProgram =>
      p.program.main.timesApplied "f" = Integer64.bound ∧
        (p.program.main.statistics.applications.get "f").toInt = -Integer64.bound ∧
        p.program.main.statistics.applications.get "f" < p.program.main.statistics.calls.get "f" := by decide +kernel
  cases h : Source.parse .plain overfullCalls with
  | error e =>
    rw [h] at hwrapped
    cases hwrapped
  | ok p =>
    rw [h] at hwrapped
    exact ⟨p, rfl, of_decide_eq_true hwrapped⟩

end CircuitDesk
