import CircuitDesk.Proofs.CallNodes
import CircuitDesk.Proofs.Defects
import CircuitDesk.Proofs.Lookup

namespace CircuitDesk

namespace Tree

inductive CallOf : Tree → Bytes → Prop
  | intro {opening count name more} :
      CallOf (.node .subroutineCall opening (count :: .leaf name :: more)) (unquoted name)

inductive DefinitionOf : Tree → Bytes → Prop
  | intro {opening name more} : DefinitionOf (.node .subroutine opening (.leaf name :: more)) (unquoted name)

def Calls (t : Tree) (name : Bytes) : Prop := ∃ s, Within s t ∧ CallOf s name

def Defines (t : Tree) (name : Bytes) : Prop := ∃ s, Within s t ∧ DefinitionOf s name

def namedRules : List Rule := [.subroutineCall, .subroutine]

def Plain (t : Tree) : Prop := ∀ s, Within s t → s.rule ∉ namedRules

theorem plain_leaf (t : Token) : Plain (.leaf t) := by
  intro s hs
  rw [within_leaf.mp hs]
  simp [rule, namedRules]

theorem plain_node {rule : Rule} {opening : Option Token} {parts : List Tree} (hrule : rule ∉ namedRules)
    (hparts : ∀ t ∈ parts, Plain t) : Plain (.node rule opening parts) := by
  intro s hs
  rcases within_node.mp hs with rfl | ⟨t, ht, hs⟩
  · exact hrule
  · exact hparts t ht s hs

theorem plain_leaves {ts : List Token} : ∀ t ∈ ts.map Tree.leaf, Plain t :=
  List.forall_mem_map.mpr fun t _ => plain_leaf t

end Tree

namespace Grammar

open CircuitDesk.Tree (CallOf Calls DefinitionOf Defines Plain Within callsAmong namedRules plain_leaf plain_leaves
  plain_node within_node)
open CircuitDesk.Tree.Reading

theorem plain_controlApp {w : List Token} {t : Tree} (h : ControlApp w t) : Plain t := by
  cases h with
  | none => exact plain_node (by decide) (by simp [plain_leaf])
  | list => exact plain_node (by decide) (by simpa using plain_node (by decide) plain_leaves)
  | listOnly =>
    refine plain_node (by decide) (List.forall_mem_cons.mpr ⟨plain_node (by decide) plain_leaves, ?_⟩)
    simp [plain_leaf]

theorem plain_callControl {w : List Token} {t : Tree} (h : CallControl w t) : Plain t := by
  cases h with
  | absent => exact plain_node (by decide) (by simp)
  | present hwith h => exact plain_controlApp h

theorem plain_stars {w : List Token} {ts : List Tree} (h : Stars w ts) : ∀ t ∈ ts, Plain t := by
  cases h with
  | absent => simp
  | present => simp [plain_leaf]

theorem plain_wires {w : List Token} {t : Tree} (h : WiresInParens w t) : Plain t := by
  obtain ⟨-, ⟨-⟩, -⟩ := h
  exact plain_node (by decide) plain_leaves

theorem plain_declarations {word : Bytes} {w : List Token} {t : Tree} (h : Declarations word w t) : Plain t := by
  obtain ⟨-, -, ⟨hitems⟩⟩ := h
  refine plain_node (by decide) ?_
  simp only [List.forall_mem_cons, plain_leaf, true_and]
  refine ⟨plain_node (by decide) fun item hitem => ?_, by simp⟩
  obtain ⟨v, hv, -⟩ := (separated_mem hitems).2 item hitem
  cases hv
  exact plain_node (by decide) (by simp [plain_leaf])

theorem plain_parts_of_gate {w : List Token} {t : Tree} (h : Gate w t) : ∀ s ∈ t.parts, Plain s := by
  cases h with
  | qgate h =>
    obtain ⟨-, -, -, hstars, -, -, -, -, hcontrol⟩ := h
    simp only [Tree.parts, List.forall_mem_cons]
    exact ⟨plain_leaf _, plain_node (by decide) (plain_stars hstars), plain_leaf _, plain_controlApp hcontrol, by simp⟩
  | qrot h =>
    obtain ⟨-, -, -, -, -, hstars, -, -, -⟩ := h
    simp only [Tree.parts, List.forall_mem_cons]
    exact ⟨plain_leaf _, plain_leaf _, plain_node (by decide) (plain_stars hstars), plain_leaf _, by simp⟩
  | qinit h =>
    obtain ⟨-, -, htarget, -, -, -⟩ := h
    cases htarget with
    | bare => simp [Tree.parts, plain_leaf]
    | labelled =>
      simp only [Tree.parts, List.forall_mem_cons]
      exact ⟨plain_leaf _, plain_node (by decide) (by simp [plain_leaf]), by simp⟩
  | comment h =>
    obtain ⟨-, -, -, -, -, -⟩ := h
    simp only [Tree.parts, List.forall_mem_cons]
    refine ⟨plain_leaf _, plain_node (by decide) fun s hs => ?_, by simp⟩
    obtain ⟨p, -, hp⟩ := List.mem_flatMap.mp hs
    simp only [List.mem_cons, List.not_mem_nil, or_false] at hp
    rcases hp with rfl | rfl <;> exact plain_leaf _
  | call h =>
    obtain ⟨-, hcount, hstars, -, -, -, -, -, -, hstars', hinputs, -, houtputs, hcontrol⟩ := h
    simp only [Tree.parts, List.forall_mem_cons]
    refine ⟨plain_node (by decide) ?_, plain_leaf _, plain_leaf _, plain_node (by decide) ?_, plain_wires hinputs,
      plain_wires houtputs, plain_callControl hcontrol, by simp⟩
    · cases hcount with
      | absent => simp
      | present => simp [plain_leaf]
    · exact List.forall_mem_append.mpr ⟨plain_stars hstars, plain_stars hstars'⟩

theorem within_of_plain_parts {s t : Tree} (hparts : ∀ u ∈ t.parts, Plain u) (hs : Within s t)
    (hrule : s.rule ∈ namedRules) : s = t := by
  cases hs with
  | self => rfl
  | part hu hs => exact absurd hrule (hparts _ hu s hs)

theorem rule_of_gate {w : List Token} {t : Tree} (h : Gate w t) : t.rule ≠ .subroutine := by
  cases h with
  | qgate h => cases h; simp [Tree.rule]
  | qrot h => cases h; simp [Tree.rule]
  | qinit h => cases h; simp [Tree.rule]
  | comment h => cases h; simp [Tree.rule]
  | call h => cases h; simp [Tree.rule]

theorem within_circuit {w : List Token} {s t : Tree} (h : Circuit w t) (hs : Within s t)
    (hrule : s.rule ∈ namedRules) : s ∈ callsAmong t.parts := by
  obtain ⟨-, hinputs, hgates, -, -, houtputs⟩ := h
  rw [Tree.parts, callsAmong_statements hinputs houtputs]
  rcases within_node.mp hs with rfl | ⟨u, hu, hin⟩
  · simp [Tree.rule, namedRules] at hrule
  · rcases List.mem_append.mp hu with hu | hu
    · rcases List.mem_cons.mp hu with rfl | hu
      · exact absurd hrule (plain_declarations hinputs s hin)
      · obtain ⟨v, hv, -⟩ := lines_mem hgates u hu
        obtain rfl := within_of_plain_parts (plain_parts_of_gate hv) hin hrule
        have hcall : s.rule = .subroutineCall := by simpa [namedRules, rule_of_gate hv] using hrule
        exact List.mem_filter.mpr ⟨hu, by simp [hcall]⟩
    · rw [List.mem_singleton.mp hu] at hin
      exact absurd hrule (plain_declarations houtputs s hin)

theorem within_of_callsAmong {s t : Tree} (hs : s ∈ callsAmong t.parts) :
    Within s t ∧ s.rule = .subroutineCall := by
  obtain ⟨hmem, hrule⟩ := List.mem_filter.mp hs
  cases t with
  | leaf t => cases hmem
  | node => exact ⟨.part hmem .self, of_decide_eq_true hrule⟩

theorem within_subroutine {w : List Token} {s t : Tree} (h : Subroutine w t) (hs : Within s t)
    (hrule : s.rule ∈ namedRules) : s = t ∨ s ∈ callsAmong t.bodyParts := by
  obtain ⟨-, -, -, -, -, -, -, -, -, -, hbody⟩ := h
  rcases within_node.mp hs with rfl | ⟨u, hu, hin⟩
  · exact .inl rfl
  · right
    simp only [List.mem_cons, List.not_mem_nil, or_false] at hu
    rcases hu with rfl | rfl | rfl | rfl
    · exact absurd hrule (plain_leaf _ s hin)
    · exact absurd hrule (plain_leaf _ s hin)
    · exact absurd hrule (plain_leaf _ s hin)
    · exact within_circuit hbody hin hrule

theorem mem_callNodes {w : List Token} {s t : Tree} (h : Program w t) :
    s ∈ t.callNodes ↔ Within s t ∧ s.rule = .subroutineCall := by
  obtain ⟨hmain, hsubs⟩ := h
  simp only [Tree.callNodes, List.mem_append, List.mem_flatMap]
  constructor
  · rintro (hs | ⟨u, hu, hs⟩)
    · obtain ⟨hin, hrule⟩ := within_of_callsAmong hs
      exact ⟨.part List.mem_cons_self hin, hrule⟩
    · obtain ⟨v, ⟨-, -, -, -, -, -, -, -, -, -, hbody⟩, -⟩ := lines_mem hsubs u hu
      obtain ⟨hin, hrule⟩ := within_of_callsAmong hs
      exact ⟨.part (List.mem_cons_of_mem _ hu) (.part (by simp) hin), hrule⟩
  · rintro ⟨hs, hrule⟩
    have hnamed : s.rule ∈ namedRules := by simp [hrule, namedRules]
    rcases within_node.mp hs with rfl | ⟨u, hu, hin⟩
    · simp [Tree.rule] at hrule
    · rcases List.mem_cons.mp hu with rfl | hu
      · exact .inl (within_circuit hmain hin hnamed)
      · obtain ⟨v, hv, -⟩ := lines_mem hsubs u hu
        rcases within_subroutine hv hin hnamed with rfl | hcall
        · cases hv
          simp [Tree.rule] at hrule
        · exact .inr ⟨u, hu, hcall⟩

theorem mem_subroutines {c ls : List Token} {s main : Tree} {subs : List Tree} (hmain : Circuit c main)
    (hsubs : Lines Subroutine ls subs) :
    s ∈ subs ↔ Within s (.node .program none (main :: subs)) ∧ s.rule = .subroutine := by
  constructor
  · intro hs
    obtain ⟨v, hv, -⟩ := lines_mem hsubs s hs
    exact ⟨.part (List.mem_cons_of_mem _ hs) .self, by cases hv; rfl⟩
  · rintro ⟨hs, hrule⟩
    have hnamed : s.rule ∈ namedRules := by simp [hrule, namedRules]
    have hnocall {u : Tree} (hcall : s ∈ callsAmong u.parts) : False := by
      rw [(within_of_callsAmong hcall).2] at hrule
      cases hrule
    rcases within_node.mp hs with rfl | ⟨u, hu, hin⟩
    · simp [Tree.rule] at hrule
    · rcases List.mem_cons.mp hu with rfl | hu
      · exact (hnocall (within_circuit hmain hin hnamed)).elim
      · obtain ⟨v, hv, -⟩ := lines_mem hsubs u hu
        rcases within_subroutine hv hin hnamed with rfl | hcall
        · exact hu
        · obtain ⟨-, -, -, -, -, -, -, -, -, -, hbody⟩ := hv
          exact (hnocall hcall).elim

theorem call_of_callNode {w : List Token} {s t : Tree} (h : Program w t) (hs : s ∈ t.callNodes) :
    ∃ v, SubroutineCall v s := by
  have hgate {c : List Token} {u : Tree} (hc : Circuit c u) (hs : s ∈ callsAmong u.parts) :
      ∃ v, SubroutineCall v s := by
    obtain ⟨-, hinputs, hgates, -, -, houtputs⟩ := hc
    rw [Tree.parts, callsAmong_statements hinputs houtputs] at hs
    obtain ⟨hmem, hrule⟩ := List.mem_filter.mp hs
    obtain ⟨v, hv, -⟩ := lines_mem hgates s hmem
    cases hv with
    | call h => exact ⟨v, h⟩
    | qgate h => cases h; cases hrule
    | qrot h => cases h; cases hrule
    | qinit h => cases h; cases hrule
    | comment h => cases h; cases hrule
  obtain ⟨hmain, hsubs⟩ := h
  rcases List.mem_append.mp hs with hs | hs
  · exact hgate hmain hs
  · obtain ⟨u, hu, hs⟩ := List.mem_flatMap.mp hs
    obtain ⟨v, ⟨-, -, -, -, -, -, -, -, -, -, hbody⟩, -⟩ := lines_mem hsubs u hu
    exact hgate hbody hs

theorem calls_iff {w : List Token} {t : Tree} {p : CircuitDesk.Program} (h : Program w t)
    (hp : t.toProgram = .ok p) {name : Bytes} : Calls t name ↔ ∃ c ∈ p.walk, c.2.2 = name := by
  have hnames : (∃ c ∈ p.walk, c.2.2 = name) ↔ ∃ s ∈ t.callNodes, s.calledName = name := by
    have hmem : name ∈ p.walk.map (fun c => c.2.2) ↔ name ∈ t.callNodes.map Tree.calledName := by
      rw [called_program h hp]
    simpa only [List.mem_map] using hmem
  rw [hnames]
  constructor
  · rintro ⟨s, hs, hcall⟩
    cases hcall with
    | intro => exact ⟨_, (mem_callNodes h).mpr ⟨hs, rfl⟩, rfl⟩
  · rintro ⟨s, hs, rfl⟩
    obtain ⟨v, hv⟩ := call_of_callNode h hs
    refine ⟨s, ((mem_callNodes h).mp hs).1, ?_⟩
    cases hv
    exact .intro

theorem defines_iff {w : List Token} {t : Tree} {p : CircuitDesk.Program} (h : Program w t)
    (hp : t.toProgram = .ok p) {name : Bytes} : Defines t name ↔ name ∈ p.names := by
  obtain ⟨hmain, hsubs⟩ := h
  obtain ⟨_, -, hp⟩ := Tree.bind_eq_ok.mp hp
  obtain ⟨ss, hreadSubs, hp⟩ := Tree.bind_eq_ok.mp hp
  cases hp
  obtain ⟨hmap, -⟩ := Tree.toSubroutines_eq_ok.mp hreadSubs
  have hname {v : List Token} {s : Tree} {sub : CircuitDesk.Subroutine} (hv : Subroutine v s)
      (hsub : s.toSubroutine = .ok sub) : DefinitionOf s name ↔ sub.name = name := by
    cases hv
    obtain ⟨c, -, hsub⟩ := Tree.bind_eq_ok.mp hsub
    cases hsub
    constructor
    · rintro ⟨⟩
      rfl
    · rintro rfl
      exact .intro
  simp only [CircuitDesk.Program.names, CircuitDesk.Program.indexed, List.mem_map]
  constructor
  · rintro ⟨s, hs, hdef⟩
    have hmem := (mem_subroutines hmain hsubs).mpr ⟨hs, by cases hdef; rfl⟩
    obtain ⟨v, hv, -⟩ := lines_mem hsubs s hmem
    obtain ⟨sub, hsub, hread⟩ := Tree.exists_of_mapM hmap hmem
    exact ⟨sub, hsub, (hname hv hread).mp hdef⟩
  · rintro ⟨sub, hsub, rfl⟩
    obtain ⟨s, hmem, hread⟩ := Tree.mem_of_mapM hmap hsub
    obtain ⟨v, hv, -⟩ := lines_mem hsubs s hmem
    exact ⟨s, ((mem_subroutines hmain hsubs).mp hmem).1, (hname hv hread).mpr rfl⟩

end Grammar

end CircuitDesk
