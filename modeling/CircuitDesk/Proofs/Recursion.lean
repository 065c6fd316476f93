import Mathlib.Data.List.Nodup
import Mathlib.Logic.Relation
import CircuitDesk.Proofs.CallSites
import CircuitDesk.Proofs.Checks
import CircuitDesk.Proofs.Lookup

namespace CircuitDesk

namespace Program

/-- A way from a name to the target that only leaves names of `unvisited`. -/
inductive Way (edges : List (Bytes × Bytes)) (target : Bytes) (unvisited : List Bytes) : Bytes → Prop
  | here : Way edges target unvisited target
  | step {n m} : n ∈ unvisited → (n, m) ∈ edges → Way edges target unvisited m → Way edges target unvisited n

variable {edges : List (Bytes × Bytes)} {target : Bytes} {unvisited stack : List Bytes} {n m : Bytes}

theorem mem_without : m ∈ without unvisited n ↔ m ∈ unvisited ∧ m ≠ n := by
  simp [without]

theorem mem_callees : m ∈ callees edges n ↔ (n, m) ∈ edges := by
  simp only [callees, List.mem_map, List.mem_filter, decide_eq_true_eq]
  constructor
  · rintro ⟨⟨a, b⟩, ⟨h, rfl⟩, rfl⟩
    exact h
  · intro h
    exact ⟨(n, m), ⟨h, rfl⟩, rfl⟩

theorem Way.mono {fewer : List Bytes} (hsub : fewer ⊆ unvisited) (h : Way edges target fewer n) :
    Way edges target unvisited n := by
  induction h with
  | here => exact .here
  | step hn he _ ih => exact .step (hsub hn) he ih

theorem Way.avoid (m : Bytes) (h : Way edges target unvisited n) :
    Way edges target (without unvisited m) n ∨
      ∃ k, (m, k) ∈ edges ∧ Way edges target (without unvisited m) k := by
  induction h with
  | here => exact .inl .here
  | @step n k hn he _ ih =>
    rcases ih with h | h
    · by_cases hnm : n = m
      · subst hnm
        exact .inr ⟨k, he, h⟩
      · exact .inl (.step (mem_without.mpr ⟨hn, hnm⟩) he h)
    · exact .inr h

/-- The search succeeds if and only if a way through unvisited names starts on the stack. What is taken off the
stack and has been visited lies on no such way, and a way through a name that is expanded goes on from one of the
names it calls. -/
theorem reachesFrom_iff (edges : List (Bytes × Bytes)) (target : Bytes) (unvisited stack : List Bytes) :
    reachesFrom edges target unvisited stack = true ↔ ∃ n ∈ stack, Way edges target unvisited n := by
  fun_induction reachesFrom edges target unvisited stack with
  | case1 => simp
  | case2 unvisited stack => simpa using .inl .here
  | case3 unvisited n stack htarget hn ih =>
    rw [ih]
    constructor
    · rintro ⟨m, hm, hway⟩
      have hway' := hway.mono fun k hk => (mem_without.mp hk).1
      rcases List.mem_append.mp hm with hm | hm
      · exact ⟨n, List.mem_cons_self, .step hn (mem_callees.mp hm) hway'⟩
      · exact ⟨m, List.mem_cons_of_mem n hm, hway'⟩
    · rintro ⟨m, hm, hway⟩
      rcases hway.avoid n with hway' | ⟨k, hk, hway'⟩
      · rcases List.mem_cons.mp hm with rfl | hm
        · cases hway' with
          | here => exact absurd rfl htarget
          | step hm _ _ => exact absurd rfl (mem_without.mp hm).2
        · exact ⟨m, List.mem_append_right _ hm, hway'⟩
      · exact ⟨k, List.mem_append_left _ (mem_callees.mpr hk), hway'⟩
  | case4 unvisited n stack htarget hn ih =>
    rw [ih]
    constructor
    · rintro ⟨m, hm, hway⟩
      exact ⟨m, List.mem_cons_of_mem n hm, hway⟩
    · rintro ⟨m, hm, hway⟩
      rcases List.mem_cons.mp hm with rfl | hm
      · cases hway with
        | here => exact absurd rfl htarget
        | step hm _ _ => exact absurd hm hn
      · exact ⟨m, hm, hway⟩

def Edge (edges : List (Bytes × Bytes)) (n m : Bytes) : Prop := (n, m) ∈ edges

theorem way_iff_chain (hcallers : ∀ e ∈ edges, e.1 ∈ unvisited) :
    Way edges target unvisited n ↔ Relation.ReflTransGen (Edge edges) n target := by
  constructor
  · intro h
    induction h with
    | here => exact .refl
    | step _ he _ ih => exact .head he ih
  · intro h
    induction h using Relation.ReflTransGen.head_induction_on with
    | refl => exact .here
    | head he _ ih => exact .step (hcallers _ he) he ih

def callEdges (resolved : List CallSite) : List (Bytes × Bytes) :=
  (resolved.filter (·.caller ≠ [])).map fun s => (s.caller, s.name)

def reachesItself (p : Program) (resolved : List CallSite) (n : Bytes) : Bool :=
  reachesFrom (callEdges resolved) n p.names (callees (callEdges resolved) n)

theorem recursiveNames_eq (p : Program) (resolved : List CallSite) :
    p.recursiveNames resolved =
      (p.subroutines.filter fun s => p.reachesItself resolved s.name).map Subroutine.name := by
  have hfilter : p.recursiveNames resolved = p.names.filter (p.reachesItself resolved) := rfl
  rw [hfilter, names, List.filter_map]
  rfl

theorem reachesItself_iff {p : Program} {resolved : List CallSite}
    (hcallers : ∀ e ∈ callEdges resolved, e.1 ∈ p.names) :
    p.reachesItself resolved n = true ↔ Relation.TransGen (Edge (callEdges resolved)) n n := by
  rw [reachesItself, reachesFrom_iff, Relation.TransGen.head'_iff]
  simp only [way_iff_chain hcallers, mem_callees]
  rfl

/-- Both subroutines are defined and the body of the first holds a call of the name of the second. -/
def Calls (p : Program) (s s' : Subroutine) : Prop :=
  s ∈ p.subroutines ∧ s' ∈ p.subroutines ∧ ∃ k, .call k ∈ s.circuit.gates ∧ k.name = s'.name

theorem mem_callEdges {p : Program} (hp : p.Assembled) (positions : List Position) {a b : Bytes} :
    (a, b) ∈ callEdges (p.report positions).resolved ↔
      a ≠ [] ∧ ∃ s s', p.Calls s s' ∧ s.name = a ∧ s'.name = b := by
  have hsite {caller : Bytes} {i : Nat} {name : Bytes} :
      (∃ s ∈ p.callSites positions, s.caller = caller ∧ s.index = i ∧ s.name = name) ↔
        ∃ k, (caller, i, k) ∈ p.calls ∧ k.name = name := by
    have hmem : (∃ s ∈ p.callSites positions, s.caller = caller ∧ s.index = i ∧ s.name = name) ↔
        (caller, i, name) ∈ (p.callSites positions).map fun s => (s.caller, s.index, s.name) := by
      simp [List.mem_map]
    rw [hmem, callSites_map, walk_eq, List.mem_map]
    constructor
    · rintro ⟨⟨_, _, k⟩, hk, h⟩
      cases h
      exact ⟨k, hk, rfl⟩
    · rintro ⟨k, hk, rfl⟩
      exact ⟨(caller, i, k), hk, rfl⟩
  simp only [callEdges, report, List.mem_map, List.mem_filter, subroutine?_isSome hp, Prod.mk.injEq, names,
    decide_eq_true_eq]
  -- a caller with a name is a subroutine, since the main circuit calls without one
  constructor
  · rintro ⟨site, ⟨⟨hmem, s', hs', hname'⟩, hne⟩, rfl, rfl⟩
    obtain ⟨k, hk, hname⟩ := hsite.mp ⟨site, hmem, rfl, rfl, rfl⟩
    rcases mem_calls.mp hk with ⟨hmain, -⟩ | ⟨s, hs, hcaller, hgate⟩
    · exact absurd hmain hne
    · exact ⟨hne, s, s', ⟨hs, hs', k, List.mem_of_getElem? hgate, by rw [hname, hname']⟩, hcaller.symm, hname'⟩
  · rintro ⟨hne, s, s', ⟨hs, hs', k, hk, hname⟩, rfl, rfl⟩
    obtain ⟨i, hi⟩ := List.getElem?_of_mem hk
    obtain ⟨site, hmem, hcaller, -, hname'⟩ := hsite.mpr ⟨k, mem_calls.mpr (.inr ⟨s, hs, rfl, hi⟩), hname⟩
    exact ⟨site, ⟨⟨hmem, s', hs', hname'.symm⟩, by rwa [hcaller]⟩, hcaller, hname'⟩

/-- In a program that passes its check nothing without a name is called, so the edges that are left out because
their caller has no name lie on no cycle. -/
theorem Calls.name_ne_nil {p : Program} (hvalid : ∀ s ∈ p.subroutines, s.circuit.Valid) {s s' : Subroutine}
    (h : p.Calls s s') : s'.name ≠ [] := by
  obtain ⟨hs, -, k, hk, hname⟩ := h
  have hmeaning := ((hvalid s hs).gates _ hk).2
  rw [← hname]
  exact hmeaning.2

theorem chain_name_ne_nil {p : Program} (hvalid : ∀ s ∈ p.subroutines, s.circuit.Valid) {s s' : Subroutine}
    (h : Relation.TransGen p.Calls s s') : s'.name ≠ [] := by
  cases h with
  | single h => exact h.name_ne_nil hvalid
  | tail _ h => exact h.name_ne_nil hvalid

theorem edges_of_chain {p : Program} (hp : p.Assembled) (hvalid : ∀ s ∈ p.subroutines, s.circuit.Valid)
    (positions : List Position) {s s' : Subroutine} (hs : s.name ≠ []) (h : Relation.TransGen p.Calls s s') :
    Relation.TransGen (Edge (callEdges (p.report positions).resolved)) s.name s'.name := by
  have hedge {s s' : Subroutine} (hs : s.name ≠ []) (h : p.Calls s s') :
      Edge (callEdges (p.report positions).resolved) s.name s'.name :=
    (mem_callEdges hp positions).mpr ⟨hs, s, s', h, rfl, rfl⟩
  induction h with
  | single h => exact .single (hedge hs h)
  | tail hchain h ih => exact .tail ih (hedge (chain_name_ne_nil hvalid hchain) h)

theorem chain_of_edges {p : Program} (hp : p.Assembled) (hnames : p.names.Nodup) (positions : List Position)
    {a b : Bytes} (h : Relation.TransGen (Edge (callEdges (p.report positions).resolved)) a b) :
    ∃ s s', s.name = a ∧ s'.name = b ∧ Relation.TransGen p.Calls s s' := by
  induction h with
  | single h =>
    obtain ⟨-, s, s', hcalls, hs, hs'⟩ := (mem_callEdges hp positions).mp h
    exact ⟨s, s', hs, hs', .single hcalls⟩
  | tail _ h ih =>
    obtain ⟨s, t, hs, ht, hchain⟩ := ih
    obtain ⟨-, t', s', hcalls, ht', hs'⟩ := (mem_callEdges hp positions).mp h
    have hmem : t ∈ p.subroutines := by
      cases hchain with
      | single h => exact h.2.1
      | tail _ h => exact h.2.1
    -- one definition a name, so the chain goes on where it stopped
    obtain rfl : t = t' := List.inj_on_of_nodup_map hnames hmem hcalls.1 (by rw [ht, ht'])
    exact ⟨s, s', hs, hs', .tail hchain hcalls⟩

/-- The recursive subroutines are those that a chain of calls leads from and back to, in the order of
definition and once each. -/
theorem recursive_iff_chain (p : Program) (hp : p.Assembled) (positions : List Position) (r : Report)
    (h : p.validate positions = .ok r) :
    ∃ rs : List Subroutine, rs.Sublist p.subroutines ∧ r.recursive = rs.map Subroutine.name ∧
      r.recursive.Nodup ∧ ∀ s, s ∈ rs ↔ s ∈ p.subroutines ∧ Relation.TransGen p.Calls s s := by
  obtain ⟨_, hcheck, hr⟩ := Tree.bind_eq_ok.mp h
  cases hr
  obtain ⟨hnames, -, hvalid⟩ := check_eq_ok.mp hcheck
  have hcallers : ∀ e ∈ callEdges (p.report positions).resolved, e.1 ∈ p.names := by
    rintro ⟨a, b⟩ he
    obtain ⟨-, s, s', hcalls, rfl, -⟩ := (mem_callEdges hp positions).mp he
    exact List.mem_map_of_mem hcalls.1
  have hcycle {s : Subroutine} (hs : s ∈ p.subroutines) :
      p.reachesItself (p.report positions).resolved s.name = true ↔ Relation.TransGen p.Calls s s := by
    rw [reachesItself_iff hcallers]
    constructor
    · intro hedges
      obtain ⟨t, t', ht, ht', hchain⟩ := chain_of_edges hp hnames positions hedges
      have hends : t ∈ p.subroutines ∧ t' ∈ p.subroutines := by
        obtain ⟨_, hfirst, -⟩ := Relation.TransGen.head'_iff.mp hchain
        obtain ⟨_, -, hlast⟩ := Relation.TransGen.tail'_iff.mp hchain
        exact ⟨hfirst.1, hlast.2.1⟩
      obtain rfl : t = s := List.inj_on_of_nodup_map hnames hends.1 hs ht
      obtain rfl : t' = t := List.inj_on_of_nodup_map hnames hends.2 hs ht'
      exact hchain
    · intro hchain
      exact edges_of_chain hp hvalid positions (chain_name_ne_nil hvalid hchain) hchain
  have hrecursive := recursiveNames_eq p (p.report positions).resolved
  refine ⟨_, List.filter_sublist, hrecursive, ?_, fun s => ?_⟩
  · exact List.Nodup.filter _ hnames
  · rw [List.mem_filter]
    exact and_congr_right hcycle

def caller (name : Bytes) (callees : List Bytes) : Subroutine :=
  ⟨name, [], .no, ⟨[], callees.map fun n => .call ⟨1, n, [], false, [], [], .none⟩, []⟩⟩

def tangle : Program :=
  .bare .empty [caller "a" ["b", "z", "b"], caller "d" ["c"], caller "b" ["c", "a"], caller "c" ["c"], caller [] ["a"]]

theorem recursive_of_tangle :
    tangle.Assembled ∧ tangle.validate [] = .ok (tangle.report []) ∧
      ∃ rs : List Subroutine, rs.Sublist tangle.subroutines ∧
        (tangle.report []).recursive = rs.map Subroutine.name ∧ (tangle.report []).recursive.Nodup ∧
        ∀ s, s ∈ rs ↔ s ∈ tangle.subroutines ∧ Relation.TransGen tangle.Calls s s := by
  have hp : tangle.Assembled := assembled_bare _ _
  have hok : tangle.validate [] = .ok (tangle.report []) := rfl
  exact ⟨hp, hok, recursive_iff_chain tangle hp [] _ hok⟩

example : (tangle.report []).recursive = ["a", "b", "c"].map Bytes.ofString := by cbv

end Program

end CircuitDesk
