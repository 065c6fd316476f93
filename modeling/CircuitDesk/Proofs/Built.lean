import CircuitDesk.Proofs.Checks
import CircuitDesk.Proofs.Finding

namespace CircuitDesk

namespace Gate

/-- What a gate that was read comes with: wires with numbers, an operation that exists, a count from one on. -/
def Built (g : Gate) : Prop :=
  (∀ w ∈ g.wires, 0 ≤ w) ∧
    match g with
    | named op _ _ _ => op.isKnown
    | rotation op _ _ _ => op.isKnown
    | call c => 1 ≤ c.repetitions
    | init .. => True
    | comment .. => True

def Named : Gate → Prop
  | call c => c.name ≠ []
  | _ => True

theorem Built.meaningful_iff {g : Gate} (h : g.Built) : g.Meaningful ↔ g.Named := by
  obtain ⟨-, h⟩ := h
  cases g with
  | named => exact iff_of_true h trivial
  | rotation => exact iff_of_true h trivial
  | init => exact Iff.rfl
  | comment => exact Iff.rfl
  | call c => exact and_iff_right h

theorem Built.offence_eq_some {g : Gate} (h : g.Built) {owner : Owner} {i : Nat} {e : SemanticFault}
    (he : g.offence owner i = some e) : e = ⟨.unplaced, [], .namelessCallAt i owner⟩ := by
  have hfind : g.wires.find? (· < 0) = none := by
    simpa [List.find?_eq_none, Int64.not_lt] using h.1
  obtain ⟨-, h⟩ := h
  cases g with
  | named op => simp_all [offence]
  | rotation op => simp_all [offence]
  | init => simp [offence, hfind] at he
  | comment => simp [offence, hfind] at he
  | call c =>
    simp only [offence, hfind, if_neg (Int64.not_lt.mpr h)] at he
    split at he
    · exact (Option.some.inj he).symm
    · cases he

end Gate

namespace Circuit

structure Built (c : Circuit) : Prop where
  inputs_nonneg : ∀ d ∈ c.inputs, 0 ≤ d.wire
  inputs_distinct : (c.inputs.map Declaration.wire).Nodup
  outputs_nonneg : ∀ d ∈ c.outputs, 0 ≤ d.wire
  outputs_distinct : (c.outputs.map Declaration.wire).Nodup
  gates : ∀ g ∈ c.gates, g.Built

theorem Built.valid_iff {c : Circuit} (h : c.Built) : c.Valid ↔ ∀ g ∈ c.gates, g.Named := by
  constructor
  · intro hvalid g hg
    exact (h.gates g hg).meaningful_iff.mp (hvalid.gates g hg).2
  · intro hnamed
    refine ⟨h.inputs_nonneg, h.inputs_distinct, h.outputs_nonneg, h.outputs_distinct, fun g hg => ?_⟩
    exact ⟨(h.gates g hg).1, (h.gates g hg).meaningful_iff.mpr (hnamed g hg)⟩

theorem Built.check_eq_error {c : Circuit} (h : c.Built) {owner : Owner} {e : SemanticFault}
    (he : c.check owner = .error e) : ∃ i, e = ⟨.unplaced, [], .namelessCallAt i owner⟩ := by
  have hin : Declaration.check Direction.inputs.name owner [] c.inputs = .ok () :=
    Declaration.check_eq_ok.mpr ⟨h.inputs_nonneg, Tree.fresh_unseen.mpr h.inputs_distinct⟩
  have hout : Declaration.check Direction.outputs.name owner [] c.outputs = .ok () :=
    Declaration.check_eq_ok.mpr ⟨h.outputs_nonneg, Tree.fresh_unseen.mpr h.outputs_distinct⟩
  rw [check, hin, hout] at he
  rcases Tree.bind_eq_error.mp he with he | ⟨_, -, he⟩
  · cases he
  · rcases Tree.bind_eq_error.mp he with he | ⟨_, -, he⟩
    · cases he
    · split at he
      · rename_i hsome
        cases he
        obtain ⟨⟨g, i⟩, hmem, hoffence⟩ := List.exists_of_findSome?_eq_some hsome
        have hg : g ∈ c.gates := List.mem_of_getElem? (List.mk_mem_zipIdx_iff_getElem?.mp hmem)
        exact ⟨i, (h.gates g hg).offence_eq_some hoffence⟩
      · cases he

end Circuit

namespace Program

structure Built (p : Program) : Prop where
  names_distinct : (p.subroutines.map Subroutine.name).Nodup
  main : p.main.Built
  subroutines : ∀ s ∈ p.subroutines, s.circuit.Built

theorem Built.check_eq_ok_iff {p : Program} (h : p.Built) :
    p.check = .ok () ↔ (∀ g ∈ p.main.gates, g.Named) ∧ ∀ s ∈ p.subroutines, ∀ g ∈ s.circuit.gates, g.Named := by
  rw [check_eq_ok, and_iff_right h.names_distinct, h.main.valid_iff]
  exact and_congr_right fun _ => forall₂_congr fun s hs => (h.subroutines s hs).valid_iff

theorem forM_eq_error {α : Type} {f : α → Checked Unit} {as : List α} {e : SemanticFault}
    (h : as.forM f = .error e) : ∃ a ∈ as, f a = .error e := by
  induction as with
  | nil => cases h
  | cons a as ih =>
    rcases Tree.bind_eq_error.mp h with h | ⟨_, -, h⟩
    · exact ⟨a, List.mem_cons_self, h⟩
    · obtain ⟨b, hb, he⟩ := ih h
      exact ⟨b, List.mem_cons_of_mem a hb, he⟩

theorem Built.check_eq_error {p : Program} (h : p.Built) {e : SemanticFault} (he : p.check = .error e) :
    ∃ i owner, e = ⟨.unplaced, [], .namelessCallAt i owner⟩ := by
  have hnames : check.names [] p.subroutines = .ok () :=
    names_eq_ok.mpr (Tree.fresh_unseen.mpr h.names_distinct)
  rw [check, hnames] at he
  rcases Tree.bind_eq_error.mp he with he | ⟨_, -, he⟩
  · cases he
  · rcases Tree.bind_eq_error.mp he with he | ⟨_, -, he⟩
    · obtain ⟨i, hi⟩ := h.main.check_eq_error he
      exact ⟨i, _, hi⟩
    · obtain ⟨s, hs, he⟩ := forM_eq_error he
      obtain ⟨i, hi⟩ := (h.subroutines s hs).check_eq_error he
      exact ⟨i, _, hi⟩

end Program

namespace Tree

theorem number?_nonneg {ds : Bytes} {n : Int64} (h : number? ds = some n) : 0 ≤ n := by
  obtain ⟨hlt, rfl⟩ := number?_eq_some.mp h
  rw [Int64.le_iff_toInt_le, Int64.toInt_ofNat_of_lt hlt]
  exact Int.natCast_nonneg _

theorem wireNumber_nonneg {t : Token} {w : Wire} (h : wireNumber t = .ok w) : 0 ≤ w := by
  obtain ⟨hlt, hw⟩ := wireNumber_eq_ok h
  exact number?_nonneg (number?_eq_some.mpr ⟨hlt, hw⟩)

theorem controlRef_nonneg {t : Token} {r : ControlRef} (h : controlRef t = .ok r) : 0 ≤ r.wire := by
  rw [controlRef] at h
  split at h
  · cases h
  · split at h
    · split at h
      · rename_i hnumber
        cases h
        exact number?_nonneg hnumber
      · cases h
    · cases h

theorem leafWire_nonneg {t : Tree} {w : Wire} (h : leafWire t = .ok w) : 0 ≤ w := by
  cases t with
  | leaf t => exact wireNumber_nonneg h
  | node => cases h

theorem toWireList_nonneg {t : Tree} {ws : List Wire} (h : t.toWireList = .ok ws) : ∀ w ∈ ws, 0 ≤ w := by
  rw [toWireList.eq_def] at h
  split at h
  · intro w hw
    obtain ⟨s, -, hs⟩ := mem_of_mapM h hw
    exact leafWire_nonneg hs
  · cases h

theorem toControl_nonneg {t : Tree} {c : Control} (h : t.toControl = .ok c) : ∀ w ∈ c.wires, 0 ≤ w := by
  rw [toControl.eq_def] at h
  split at h
  · cases h
    simp [Control.wires, Control.none]
  · cases h
    simp [Control.wires]
  · split at h
    · cases h
    · obtain ⟨refs, hrefs, h⟩ := bind_eq_ok.mp h
      cases h
      intro w hw
      obtain ⟨r, hr, rfl⟩ := List.mem_map.mp hw
      obtain ⟨s, -, hs⟩ := mem_of_mapM hrefs hr
      cases s with
      | leaf t => exact controlRef_nonneg hs
      | node => cases hs
  · cases h

theorem toWireLabel_nonneg {t : Tree} {l : WireLabel} (h : t.toWireLabel = .ok l) : 0 ≤ l.wire := by
  rw [toWireLabel.eq_def] at h
  split at h
  · obtain ⟨w, hw, h⟩ := bind_eq_ok.mp h
    cases h
    exact wireNumber_nonneg hw
  · cases h

theorem toWireLabels_nonneg {ts : List Tree} {ls : List WireLabel} (h : toWireLabels ts = .ok ls) :
    ∀ l ∈ ls, 0 ≤ l.wire := by
  induction ts using toWireLabels.induct generalizing ls with
  | case1 =>
    cases h
    simp
  | case2 w l more ih =>
    obtain ⟨wire, hwire, h⟩ := bind_eq_ok.mp h
    obtain ⟨later, hlater, h⟩ := bind_eq_ok.mp h
    cases h
    exact List.forall_mem_cons.mpr ⟨wireNumber_nonneg hwire, ih hlater⟩
  | case3 t ts hpair =>
    rw [toWireLabels.eq_def] at h
    split at h
    · rename_i heq
      cases heq
    · rename_i heq
      cases heq
      exact (hpair _ _ _ rfl rfl).elim
    · cases h

theorem toRepetitions_pos {t : Tree} {n : Int64} (h : t.toRepetitions = .ok n) : 1 ≤ n := by
  rw [toRepetitions.eq_def] at h
  split at h
  · cases h
    decide
  · split at h
    · split at h
      · cases h
      · rename_i hn
        cases h
        exact Int64.not_lt.mp hn
    · cases h
  · cases h

theorem isKnown_of_gateLookup {name : Bytes} {op : GateOp} (h : GateOp.lookup name = some op) : op.isKnown := by
  have hknown : ∀ p ∈ (GateOp.all.map fun op => (op.name, op)) ++ GateOp.aliases, p.2.isKnown := by decide
  obtain ⟨before, after, htable, -⟩ := List.lookup_eq_some_iff.mp h
  exact hknown (name, op) (by simp [htable])

theorem isKnown_of_rotationLookup {name : Bytes} {op : RotationOp} (h : RotationOp.lookup name = some op) :
    op.isKnown := by
  have hknown : ∀ p ∈ RotationOp.all.map fun op => (op.name, op), p.2.isKnown := by decide
  obtain ⟨before, after, htable, -⟩ := List.lookup_eq_some_iff.mp h
  exact hknown (name, op) (by simp [htable])

theorem toGate_built {t : Tree} {g : Gate} (h : t.toGate = .ok g) : g.Built := by
  rw [toGate.eq_def] at h
  split at h
  · split at h
    · cases h
    · rename_i hop
      obtain ⟨w, hw, h⟩ := bind_eq_ok.mp h
      obtain ⟨c, hc, h⟩ := bind_eq_ok.mp h
      cases h
      exact ⟨List.forall_mem_cons.mpr ⟨wireNumber_nonneg hw, toControl_nonneg hc⟩, isKnown_of_gateLookup hop⟩
  · split at h
    · cases h
    · rename_i hop
      split at h
      · cases h
      · obtain ⟨w, hw, h⟩ := bind_eq_ok.mp h
        cases h
        exact ⟨List.forall_mem_singleton.mpr (wireNumber_nonneg hw), isKnown_of_rotationLookup hop⟩
  · obtain ⟨w, hw, h⟩ := bind_eq_ok.mp h
    cases h
    exact ⟨List.forall_mem_singleton.mpr (wireNumber_nonneg hw), trivial⟩
  · obtain ⟨l, hl, h⟩ := bind_eq_ok.mp h
    cases h
    exact ⟨List.forall_mem_singleton.mpr (toWireLabel_nonneg hl), trivial⟩
  · obtain ⟨ls, hls, h⟩ := bind_eq_ok.mp h
    cases h
    exact ⟨List.forall_mem_map.mpr (toWireLabels_nonneg hls), trivial⟩
  · obtain ⟨n, hn, h⟩ := bind_eq_ok.mp h
    obtain ⟨inputs, hinputs, h⟩ := bind_eq_ok.mp h
    obtain ⟨outputs, houtputs, h⟩ := bind_eq_ok.mp h
    obtain ⟨c, hc, h⟩ := bind_eq_ok.mp h
    cases h
    refine ⟨fun w hw => ?_, toRepetitions_pos hn⟩
    simp only [Gate.wires, Call.wires, List.mem_append, Gate.mem_firstOccurrences] at hw
    rcases hw with (hw | hw) | hw
    · exact toWireList_nonneg hinputs w hw
    · exact toWireList_nonneg houtputs w hw
    · exact toControl_nonneg hc w hw
  · cases h

theorem toDeclaration_nonneg {t : Tree} {d : Declaration} (h : t.toDeclaration = .ok d) : 0 ≤ d.wire := by
  rw [toDeclaration.eq_def] at h
  split at h
  · obtain ⟨w, hw, h⟩ := bind_eq_ok.mp h
    cases h
    exact wireNumber_nonneg hw
  · cases h

theorem toIoStatement_built {t : Tree} {p : Direction × List Declaration} (h : t.toIoStatement = .ok p) :
    (∀ d ∈ p.2, 0 ≤ d.wire) ∧ (p.2.map Declaration.wire).Nodup := by
  rw [toIoStatement.eq_def] at h
  split at h
  · obtain ⟨ds, hds, h⟩ := bind_eq_ok.mp h
    cases h
    rw [toArity.eq_def] at hds
    split at hds
    · obtain ⟨hmap, hfresh⟩ := toDeclarations_eq_ok.mp hds
      refine ⟨fun d hd => ?_, hfresh.1⟩
      obtain ⟨s, -, hs⟩ := mem_of_mapM hmap hd
      exact toDeclaration_nonneg hs
    · cases hds
  · cases h

theorem toCircuit_built {t : Tree} {c : Circuit} (h : t.toCircuit = .ok c) : c.Built := by
  rw [toCircuit.eq_def] at h
  split at h
  · split at h
    · cases h
    · obtain ⟨inputs, hin, h⟩ := bind_eq_ok.mp h
      obtain ⟨outputs, hout, h⟩ := bind_eq_ok.mp h
      obtain ⟨gates, hgates, h⟩ := bind_eq_ok.mp h
      cases h
      obtain ⟨hinputs, hdistinct⟩ := toIoStatement_built hin
      obtain ⟨houtputs, hdistinct'⟩ := toIoStatement_built hout
      refine ⟨hinputs, hdistinct, houtputs, hdistinct', fun g hg => ?_⟩
      obtain ⟨s, -, hs⟩ := mem_of_mapM hgates hg
      exact toGate_built hs
  · cases h

theorem toProgram_built {t : Tree} {p : Program} (h : t.toProgram = .ok p) : p.Built := by
  rw [toProgram.eq_def] at h
  split at h
  · obtain ⟨main, hmain, h⟩ := bind_eq_ok.mp h
    obtain ⟨subs, hsubs, h⟩ := bind_eq_ok.mp h
    cases h
    obtain ⟨hmap, hfresh⟩ := toSubroutines_eq_ok.mp hsubs
    refine ⟨hfresh.1, toCircuit_built hmain, fun s hs => ?_⟩
    obtain ⟨u, -, hu⟩ := mem_of_mapM hmap hs
    rw [toSubroutine.eq_def] at hu
    split at hu
    · obtain ⟨c, hc, hu⟩ := bind_eq_ok.mp hu
      cases hu
      exact toCircuit_built hc
    · cases hu
  · cases h

end Tree

end CircuitDesk
