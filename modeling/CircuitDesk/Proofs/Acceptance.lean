import CircuitDesk.Proofs.Built
import CircuitDesk.Proofs.Finding.Rules
import CircuitDesk.Proofs.Occurrences
import CircuitDesk.Proofs.Sites

namespace CircuitDesk

open CircuitDesk.Tree (bind_eq_ok bind_eq_error)

namespace Program

theorem named_iff_called {c : Circuit} : (∀ g ∈ c.gates, g.Named) ↔ [] ∉ c.called := by
  rw [Circuit.called, List.mem_filterMap]
  constructor
  · rintro h ⟨g, hg, hcalled⟩
    have hnamed := h g hg
    cases g with
    | call k => exact hnamed (Option.some.inj hcalled)
    | named => cases hcalled
    | rotation => cases hcalled
    | init => cases hcalled
    | comment => cases hcalled
  · intro h g hg
    cases g with
    | call k =>
      intro hname
      exact h ⟨.call k, hg, congrArg some hname⟩
    | named => trivial
    | rotation => trivial
    | init => trivial
    | comment => trivial

theorem Built.check_eq_ok_iff_walk {p : Program} (h : p.Built) :
    p.check = .ok () ↔ ¬ ∃ c ∈ p.walk, c.2.2 = [] := by
  have hnames : (∃ c ∈ p.walk, c.2.2 = []) ↔ [] ∈ p.walk.map fun c => c.2.2 := by
    simp only [List.mem_map]
  rw [h.check_eq_ok_iff, hnames, walk_names]
  simp only [named_iff_called, List.mem_append, List.mem_flatMap, not_or, not_exists, not_and]

theorem unresolved_ne_nil {p : Program} (hp : p.Assembled) (positions : List Position) :
    (p.report positions).unresolved ≠ [] ↔ ∃ c ∈ p.walk, c.2.2 ∉ p.names := by
  have hsite : (∃ c ∈ p.walk, c.2.2 ∉ p.names) ↔ ∃ s ∈ p.callSites positions, s.name ∉ p.names := by
    rw [← callSites_map p positions]
    constructor
    · rintro ⟨c, hc, hvain⟩
      obtain ⟨s, hs, rfl⟩ := List.mem_map.mp hc
      exact ⟨s, hs, hvain⟩
    · rintro ⟨s, hs, hvain⟩
      exact ⟨_, List.mem_map_of_mem hs, hvain⟩
  rw [report_unresolved hp, hsite]
  simp [List.filter_eq_nil_iff, callsInVain]

end Program

/-- What becomes of a text whose tree is that of a program. -/
structure Judged (file text : Bytes) (t : Tree) : Prop where
  refused : (∃ f, Source.parse ⟨file, false⟩ text = .error f) ↔ (∃ tok, t.Offends tok) ∨ t.Calls []
  semantic : ∀ strict f, Source.parse ⟨file, strict⟩ text = .error f → ∃ e, f = .semantic e
  refused_strictly : (∃ f, Source.parse ⟨file, true⟩ text = .error f) ↔
    (∃ f, Source.parse ⟨file, false⟩ text = .error f) ∨ ∃ name, t.Calls name ∧ ¬ t.Defines name
  same : ((∃ f, Source.parse ⟨file, false⟩ text = .error f) ∨ ¬ ∃ name, t.Calls name ∧ ¬ t.Defines name) →
    Source.parse ⟨file, true⟩ text = Source.parse ⟨file, false⟩ text

theorem checkedProgram_of_error {t : Tree} {e : SemanticFault} (h : t.toProgram = .error e) (strict : Bool) :
    Source.checkedProgram strict t = .error e := by
  rw [Source.checkedProgram, h]
  rfl

theorem checkedProgram_of_check_error {t : Tree} {p : Program} {e : SemanticFault} (hread : t.toProgram = .ok p)
    (h : p.check = .error e) (strict : Bool) : Source.checkedProgram strict t = .error e := by
  rw [Source.checkedProgram, hread]
  change (p.check >>= _) >>= _ = _
  rw [h]
  rfl

theorem check_of_tree {w : List Token} {t : Tree} {p : Program} (hw : Grammar.Program w t)
    (hread : t.toProgram = .ok p) : p.check = .ok () ↔ ¬ t.Calls [] := by
  rw [(Tree.toProgram_built hread).check_eq_ok_iff_walk, Grammar.calls_iff hw hread]

theorem nameless_of_check_error {w : List Token} {t : Tree} {p : Program} {e : SemanticFault}
    (hw : Grammar.Program w t) (hread : t.toProgram = .ok p) (h : p.check = .error e) : t.Calls [] := by
  apply Classical.byContradiction
  intro hnone
  rw [(check_of_tree hw hread).mpr hnone] at h
  cases h

theorem Judged.of_fault {file text : Bytes} {t : Tree} {e : SemanticFault}
    (hparse : ∀ strict, Source.parse ⟨file, strict⟩ text = .error (.semantic e))
    (hwrong : (∃ tok, t.Offends tok) ∨ t.Calls []) : Judged file text t where
  refused := iff_of_true ⟨_, hparse false⟩ hwrong
  semantic strict f hf := by
    rw [hparse strict] at hf
    cases hf
    exact ⟨e, rfl⟩
  refused_strictly := iff_of_true ⟨_, hparse true⟩ (.inl ⟨_, hparse false⟩)
  same _ := by rw [hparse, hparse]

theorem Judged.of_report {file text : Bytes} {t : Tree} {p : Program} {r : Report}
    (hparse : Source.parse ⟨file, false⟩ text = .ok ⟨p, r⟩)
    (hstrict : Source.parse ⟨file, true⟩ text = match r.unresolved with
      | site :: _ => .error (.semantic ⟨site.pos, site.name, .undefinedCall⟩)
      | [] => .ok ⟨p, r⟩)
    (hright : ¬ ((∃ tok, t.Offends tok) ∨ t.Calls []))
    (hvain : r.unresolved ≠ [] ↔ ∃ name, t.Calls name ∧ ¬ t.Defines name) : Judged file text t := by
  have hread : ¬ ∃ f, Source.parse ⟨file, false⟩ text = .error f := by simp [hparse]
  cases hunresolved : r.unresolved with
  | nil =>
    have hnone := (not_congr hvain).mp (by simp [hunresolved])
    rw [hunresolved] at hstrict
    refine ⟨iff_of_false hread hright, ?_, iff_of_false (by simp [hstrict]) (by simp [hread, hnone]), fun _ => ?_⟩
    · rintro (_ | _) f hf
      · simp [hparse] at hf
      · simp [hstrict] at hf
    · rw [hstrict, hparse]
  | cons site more =>
    have hsome := hvain.mp (by simp [hunresolved])
    rw [hunresolved] at hstrict
    refine ⟨iff_of_false hread hright, ?_, iff_of_true ⟨_, hstrict⟩ (.inr hsome), fun h => ?_⟩
    · rintro (_ | _) f hf
      · simp [hparse] at hf
      · rw [hstrict] at hf
        cases hf
        exact ⟨_, rfl⟩
    · exact absurd h (not_or.mpr ⟨hread, not_not_intro hsome⟩)

theorem judged_of_tree (file text : Bytes) (t : Tree) (h : Source.tree .program file text = .ok t) :
    Judged file text t := by
  obtain ⟨ts, hlex, htree⟩ := tree_eq_ok.mp h
  obtain ⟨w, hw, -, -⟩ := callPositions_of_tokens hlex htree
  have hfinds := Tree.finds_toProgram hw
  cases hread : t.toProgram with
  | error e =>
    obtain ⟨tok, hoffends, -⟩ := hfinds.refused hread
    refine .of_fault (e := e) (fun strict => ?_) (.inl ⟨tok, hoffends⟩)
    rw [parse_of_tree h, checkedProgram_of_error hread]
    rfl
  | ok p =>
    have hcalls {name : Bytes} : t.Calls name ↔ ∃ c ∈ p.walk, c.2.2 = name := Grammar.calls_iff hw hread
    have hdefines {name : Bytes} : t.Defines name ↔ name ∈ p.names := Grammar.defines_iff hw hread
    cases hcheck : p.check with
    | error e =>
      refine .of_fault (e := e) (fun strict => ?_) (.inr (nameless_of_check_error hw hread hcheck))
      rw [parse_of_tree h, checkedProgram_of_check_error hread hcheck]
      rfl
    | ok u =>
      have hright : ¬ ((∃ tok, t.Offends tok) ∨ t.Calls []) := by
        rintro (⟨tok, hoffends⟩ | hnameless)
        · exact hfinds.accepted hread tok hoffends
        · exact (check_of_tree hw hread).mp hcheck hnameless
      refine .of_report (p := p) (r := p.report t.callPositions) ?_ ?_ hright ?_
      · rw [parse_of_tree h, checkedProgram_of_check hread hcheck]
        rfl
      · rw [parse_of_tree h, checkedProgram_of_check hread hcheck]
        cases (p.report t.callPositions).unresolved <;> rfl
      · rw [Program.unresolved_ne_nil (assembled_of_toProgram hread)]
        simp only [hcalls, hdefines]
        constructor
        · rintro ⟨c, hc, hvain⟩
          exact ⟨c.2.2, ⟨c, hc, rfl⟩, hvain⟩
        · rintro ⟨name, ⟨c, hc, rfl⟩, hvain⟩
          exact ⟨c, hc, hvain⟩

def clashingWires : Bytes :=
  Bytes.unlines ["Inputs: 1:Qbit, 01:Qbit", "Subroutine[\"\", shape \"\"] (1) -> (1)", "Outputs: 1:Qbit"]

theorem judged_of_clashingWires :
    ∃ t, Source.tree .program "clash" clashingWires = .ok t ∧ Judged "clash" clashingWires t := by
  have hok : (Source.tree .program "clash" clashingWires).toBool = true := by decide +kernel
  cases h : Source.tree .program "clash" clashingWires with
  | error e =>
    rw [h] at hok
    cases hok
  | ok t => exact ⟨t, rfl, judged_of_tree _ _ t h⟩

end CircuitDesk
