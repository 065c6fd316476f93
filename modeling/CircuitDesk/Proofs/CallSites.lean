import CircuitDesk.Program.Report

namespace CircuitDesk

theorem Circuit.mem_calls {c : Circuit} {i : Nat} {k : Call} :
    (i, k) ∈ c.calls ↔ c.gates[i]? = some (.call k) := by
  rw [calls, List.mem_filterMap]
  constructor
  · rintro ⟨⟨g, j⟩, hmem, hg⟩
    cases g with
    | call k' =>
      cases hg
      exact List.mk_mem_zipIdx_iff_getElem?.mp hmem
    | named => cases hg
    | rotation => cases hg
    | init => cases hg
    | comment => cases hg
  · intro h
    exact ⟨(.call k, i), List.mk_mem_zipIdx_iff_getElem?.mpr h, rfl⟩

/-- The calls of a body in the order of its gates: who calls, at which gate, and what is called. -/
def Circuit.walk (caller : Bytes) (c : Circuit) : List (Bytes × Nat × Bytes) :=
  c.gates.zipIdx.filterMap fun
    | (.call k, i) => some (caller, i, k.name)
    | _ => none

theorem Circuit.walk_eq (caller : Bytes) (c : Circuit) :
    c.walk caller = c.calls.map fun (i, k) => (caller, i, k.name) := by
  rw [walk, calls, List.map_filterMap]
  congr 1
  funext ⟨g, i⟩
  cases g <;> rfl

namespace Program

theorem mem_calls {p : Program} {caller : Bytes} {i : Nat} {k : Call} :
    (caller, i, k) ∈ p.calls ↔ caller = [] ∧ p.main.gates[i]? = some (.call k) ∨
      ∃ s ∈ p.subroutines, caller = s.name ∧ s.circuit.gates[i]? = some (.call k) := by
  simp only [calls, List.mem_append, List.mem_map, List.mem_flatMap, Prod.mk.injEq]
  constructor
  · rintro (⟨⟨j, k'⟩, hmem, rfl, hk⟩ | ⟨s, hs, ⟨j, k'⟩, hmem, rfl, hk⟩)
    · cases hk
      exact .inl ⟨rfl, Circuit.mem_calls.mp hmem⟩
    · cases hk
      exact .inr ⟨s, hs, rfl, Circuit.mem_calls.mp hmem⟩
  · rintro (⟨rfl, h⟩ | ⟨s, hs, rfl, h⟩)
    · exact .inl ⟨(i, k), Circuit.mem_calls.mpr h, rfl, rfl⟩
    · exact .inr ⟨s, hs, (i, k), Circuit.mem_calls.mpr h, rfl, rfl⟩

def walk (p : Program) : List (Bytes × Nat × Bytes) :=
  p.main.walk [] ++ p.subroutines.flatMap fun s => s.circuit.walk s.name

theorem walk_eq (p : Program) : p.walk = p.calls.map fun (caller, i, k) => (caller, i, k.name) := by
  simp only [walk, calls, Circuit.walk_eq, List.map_append, List.map_map, List.map_flatMap, Function.comp_def]

theorem callSites_map (p : Program) (positions : List Position) :
    (p.callSites positions).map (fun s => (s.caller, s.index, s.name)) = p.walk := by
  have hcalls : p.calls = p.calls.zipIdx.map Prod.fst := by rw [List.zipIdx_map_fst]
  rw [callSites, walk_eq, hcalls, List.map_map, List.map_map, ← hcalls]
  rfl

theorem callSites_pos {p : Program} {positions : List Position} (h : p.calls.length = positions.length) :
    (p.callSites positions).map CallSite.pos = positions := by
  apply List.ext_getElem
  · simp [callSites, h]
  · intro n hn hn'
    simp [callSites, hn']

end Program

end CircuitDesk
