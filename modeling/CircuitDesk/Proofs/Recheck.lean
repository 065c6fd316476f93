import CircuitDesk.Proofs.Built
import CircuitDesk.Proofs.CallSites
import CircuitDesk.Proofs.RoundTrip
import CircuitDesk.Statistics

namespace CircuitDesk

def verdict : Option SemanticFault → Checked Unit
  | none => .ok ()
  | some e => .error e

theorem verdict_bind (a b : Option SemanticFault) : (verdict a >>= fun _ => verdict b) = verdict (a.or b) := by
  cases a <;> rfl

theorem verdict_forM {α : Type} {f : α → Checked Unit} {find : α → Option SemanticFault} {as : List α}
    (h : ∀ a ∈ as, f a = verdict (find a)) : as.forM f = verdict (as.findSome? find) := by
  induction as with
  | nil => rfl
  | cons a as ih =>
    obtain ⟨ha, has⟩ := List.forall_mem_cons.mp h
    change (f a >>= fun _ => as.forM f) = _
    rw [ha, ih has, verdict_bind, List.findSome?_cons]
    cases find a <;> rfl

def namelessFault (owner : Owner) (i : Nat) : SemanticFault := ⟨.unplaced, [], .namelessCallAt i owner⟩

def Call.isNameless (k : Call) : Bool := k.name = []

namespace Circuit

variable {c : Circuit}

theorem calls_eq (c : Circuit) : c.calls = c.gates.zipIdx.filterMap fun x => x.1.call?.map (x.2, ·) := by
  rw [calls]
  congr 1
  funext x
  obtain ⟨g, i⟩ := x
  cases g <;> rfl

theorem offence_of_call {k : Call} (h : (Gate.call k).Built) (owner : Owner) (i : Nat) :
    (Gate.call k).offence owner i = if k.isNameless then some (namelessFault owner i) else none := by
  by_cases hname : k.name = []
  · cases hoffence : (Gate.call k).offence owner i with
    | none => exact absurd hname (Gate.offence_eq_none.mp hoffence).2.2
    | some e => simp [h.offence_eq_some hoffence, Call.isNameless, hname, namelessFault]
  · have hnone : (Gate.call k).offence owner i = none := by
      apply Gate.offence_eq_none.mpr
      exact ⟨h.1, h.meaningful_iff.mpr hname⟩
    simp [hnone, Call.isNameless, hname]

theorem offences_of_built {gs : List (Gate × Nat)} (h : ∀ x ∈ gs, x.1.Built) (owner : Owner) :
    gs.findSome? (fun x => x.1.offence owner x.2) =
      ((gs.filterMap fun x => x.1.call?.map (x.2, ·)).find? fun k => k.2.isNameless).map
        fun k => namelessFault owner k.1 := by
  induction gs with
  | nil => rfl
  | cons x gs ih =>
    obtain ⟨g, i⟩ := x
    obtain ⟨hg, hgs⟩ := List.forall_mem_cons.mp h
    have passes (hnamed : g.Named) : g.offence owner i = none :=
      Gate.offence_eq_none.mpr ⟨hg.1, hg.meaningful_iff.mpr hnamed⟩
    cases g with
    | call k =>
      rw [List.findSome?_cons, offence_of_call hg, ih hgs]
      cases hk : k.isNameless <;> simp [Gate.call?, hk]
    | named => simpa [Gate.call?, passes trivial] using ih hgs
    | rotation => simpa [Gate.call?, passes trivial] using ih hgs
    | init => simpa [Gate.call?, passes trivial] using ih hgs
    | comment => simpa [Gate.call?, passes trivial] using ih hgs

theorem Built.check_eq (h : c.Built) (owner : Owner) :
    c.check owner = verdict ((c.calls.find? fun k => k.2.isNameless).map fun k => namelessFault owner k.1) := by
  have hin : Declaration.check Direction.inputs.name owner [] c.inputs = .ok () :=
    Declaration.check_eq_ok.mpr ⟨h.inputs_nonneg, Tree.fresh_unseen.mpr h.inputs_distinct⟩
  have hout : Declaration.check Direction.outputs.name owner [] c.outputs = .ok () :=
    Declaration.check_eq_ok.mpr ⟨h.outputs_nonneg, Tree.fresh_unseen.mpr h.outputs_distinct⟩
  have hgates : ∀ x ∈ c.gates.zipIdx, x.1.Built := fun x hx => h.gates x.1 (List.fst_mem_of_mem_zipIdx hx)
  rw [calls_eq, ← offences_of_built hgates owner, check, hin, hout]
  split
  · next e he => exact (congrArg verdict he).symm
  · next hnone => exact (congrArg verdict hnone).symm

end Circuit

namespace Program

variable {p : Program}

/-- The first call without a name, with its caller and its place among the gates there. -/
def namelessCall? (p : Program) : Option (Bytes × Nat × Call) := p.calls.find? fun c => c.2.2.isNameless

theorem namelessCall?_eq (p : Program) :
    p.namelessCall?.map (fun c => namelessFault (.ofName c.1) c.2.1) =
      ((p.main.calls.find? fun k => k.2.isNameless).map fun k => namelessFault .main k.1).or
        (p.subroutines.findSome? fun s =>
          (s.circuit.calls.find? fun k => k.2.isNameless).map fun k => namelessFault (.ofName s.name) k.1) := by
  have within (caller : Bytes) (ks : List (Nat × Call)) :
      ((ks.map fun k => (caller, k)).find? fun c => c.2.2.isNameless).map
          (fun c => namelessFault (.ofName c.1) c.2.1) =
        (ks.find? fun k => k.2.isNameless).map fun k => namelessFault (.ofName caller) k.1 := by
    rw [List.find?_map, Option.map_map]
    rfl
  rw [namelessCall?, calls, List.find?_append, Option.map_or, within, List.find?_flatMap, List.map_findSome?]
  simp only [Function.comp_def, within]
  rfl

theorem Built.check_eq (h : p.Built) :
    p.check = verdict (p.namelessCall?.map fun c => namelessFault (.ofName c.1) c.2.1) := by
  have hnames : check.names [] p.subroutines = .ok () :=
    names_eq_ok.mpr (Tree.fresh_unseen.mpr h.names_distinct)
  have hsubs := verdict_forM fun s hs => (h.subroutines s hs).check_eq (.ofName s.name)
  rw [check, hnames, h.main.check_eq, hsubs, namelessCall?_eq]
  exact verdict_bind _ _

theorem namelessCall?_eq_none (p : Program) :
    p.namelessCall? = none ↔ (∀ k, .call k ∈ p.main.gates → k.name ≠ []) ∧
      ∀ s ∈ p.subroutines, ∀ k, .call k ∈ s.circuit.gates → k.name ≠ [] := by
  have hcalls : p.namelessCall? = none ↔ ∀ caller i k, (caller, i, k) ∈ p.calls → k.name ≠ [] := by
    simp [namelessCall?, List.find?_eq_none, Call.isNameless]
  rw [hcalls]
  constructor
  · intro h
    constructor
    · intro k hk
      obtain ⟨i, hi⟩ := List.getElem?_of_mem hk
      exact h [] i k (mem_calls.mpr (.inl ⟨rfl, hi⟩))
    · intro s hs k hk
      obtain ⟨i, hi⟩ := List.getElem?_of_mem hk
      exact h s.name i k (mem_calls.mpr (.inr ⟨s, hs, rfl, hi⟩))
  · rintro ⟨hmain, hsubs⟩ caller i k hk
    rcases mem_calls.mp hk with ⟨-, hi⟩ | ⟨s, hs, -, hi⟩
    · exact hmain k (List.mem_of_getElem? hi)
    · exact hsubs s hs k (List.mem_of_getElem? hi)

end Program

/-- A program that was read passes the check of the whole if and only if all its calls have names. The first call
without one is all that the check can find in it. -/
theorem validate_of_toProgram (t : Tree) (p : Program) (positions : List Position) (h : t.toProgram = .ok p) :
    ((∃ r, p.validate positions = .ok r) ↔ (∀ k, .call k ∈ p.main.gates → k.name ≠ []) ∧
        ∀ s ∈ p.subroutines, ∀ k, .call k ∈ s.circuit.gates → k.name ≠ []) ∧
      p.validate positions = match p.namelessCall? with
        | none => .ok (p.report positions)
        | some (caller, i, _) => .error ⟨.unplaced, [], .namelessCallAt i (.ofName caller)⟩ := by
  have hvalidate : p.validate positions = match p.namelessCall? with
      | none => .ok (p.report positions)
      | some (caller, i, _) => .error ⟨.unplaced, [], .namelessCallAt i (.ofName caller)⟩ := by
    rw [Program.validate, (Tree.toProgram_built h).check_eq]
    cases p.namelessCall? <;> rfl
  refine ⟨?_, hvalidate⟩
  rw [← p.namelessCall?_eq_none, hvalidate]
  cases p.namelessCall? with
  | none => exact iff_of_true ⟨_, rfl⟩ rfl
  | some c =>
    apply iff_of_false
    · rintro ⟨r, hr⟩
      cases hr
    · exact Option.some_ne_none c

def namelessInBody : Bytes :=
  Bytes.unlines ["Inputs: 0:Qbit", "Subroutine[\"f\", shape \"x\"] (0) -> (0)", "Outputs: 0:Qbit", "",
    "Subroutine: \"f\"", "Shape: \"x\"", "Controllable: no", "Inputs: 0:Qbit", "QGate[\"H\"](0) with nocontrol",
    "Subroutine(x2)[\"\", shape \"\"] (0) -> (0)", "Outputs: 0:Qbit"]

theorem validate_of_namelessInBody :
    ∃ t p, Source.tree .program "body" namelessInBody = .ok t ∧ t.toProgram = .ok p ∧
      p.namelessCall?.map (fun c => (c.1, c.2.1)) = some (Bytes.ofString "f", 1) ∧
      p.validate t.callPositions = match p.namelessCall? with
        | none => .ok (p.report t.callPositions)
        | some (caller, i, _) => .error ⟨.unplaced, [], .namelessCallAt i (.ofName caller)⟩ := by
  have hread : (Source.tree .program "body" namelessInBody).toOption.bind (fun t => t.toProgram.toOption.bind fun p =>
      p.namelessCall?.map fun c => (c.1, c.2.1)) = some (Bytes.ofString "f", 1) := by decide +kernel
  cases ht : Source.tree .program "body" namelessInBody with
  | error e =>
    rw [ht] at hread
    cases hread
  | ok t =>
    rw [ht] at hread
    cases hp : t.toProgram with
    | error e =>
      change (t.toProgram.toOption.bind fun p => p.namelessCall?.map fun c => (c.1, c.2.1)) = _ at hread
      rw [hp] at hread
      cases hread
    | ok p =>
      change (t.toProgram.toOption.bind fun p => p.namelessCall?.map fun c => (c.1, c.2.1)) = _ at hread
      rw [hp] at hread
      exact ⟨t, p, rfl, hp, hread, (validate_of_toProgram t p t.callPositions hp).2⟩

end CircuitDesk
