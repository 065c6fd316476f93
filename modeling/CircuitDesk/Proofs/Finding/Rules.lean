import CircuitDesk.Proofs.Finding
import CircuitDesk.Proofs.Grammar.Leaves
import CircuitDesk.Proofs.Written

namespace CircuitDesk.Tree

open Bytes (natValue)
open Grammar (is_iff)
open Reading (Lines)

def BadWireIn (parts : List Tree) (tok : Token) : Prop := .leaf tok ∈ parts ∧ tok.kind = .integer ∧ BadWire tok

section Parts

variable {tok t : Token} {rule : Rule} {opening : Option Token} {parts more : List Tree}

theorem badWireIn_nil : ¬ BadWireIn [] tok := by simp [BadWireIn]

theorem badWireIn_wire (h : t.kind = .integer) :
    BadWireIn (.leaf t :: more) tok ↔ tok = t ∧ BadWire t ∨ BadWireIn more tok := by
  simp only [BadWireIn, List.mem_cons, leaf.injEq]
  constructor
  · rintro ⟨rfl | hmem, hkind, hbad⟩
    · exact .inl ⟨rfl, hbad⟩
    · exact .inr ⟨hmem, hkind, hbad⟩
  · rintro (⟨rfl, hbad⟩ | ⟨hmem, hkind, hbad⟩)
    · exact ⟨.inl rfl, h, hbad⟩
    · exact ⟨.inr hmem, hkind, hbad⟩

theorem badWireIn_other (h : t.kind ≠ .integer) : BadWireIn (.leaf t :: more) tok ↔ BadWireIn more tok := by
  simp only [BadWireIn, List.mem_cons, leaf.injEq]
  constructor
  · rintro ⟨rfl | hmem, hkind, hbad⟩
    · exact absurd hkind h
    · exact ⟨hmem, hkind, hbad⟩
  · rintro ⟨hmem, hkind, hbad⟩
    exact ⟨.inr hmem, hkind, hbad⟩

theorem badWireIn_node : BadWireIn (.node rule opening parts :: more) tok ↔ BadWireIn more tok := by
  simp [BadWireIn]

def wiresOnly : Rule → Bool
  | .qgate | .qrot | .signedList | .repetition | .arity | .program => false
  | _ => true

theorem defect_wiresOnly (h : wiresOnly rule) : Defect (.node rule opening parts) tok ↔ BadWireIn parts tok := by
  constructor
  · intro hdefect
    cases hdefect with
    | wire _ hmem hkind hbad => exact ⟨hmem, hkind, hbad⟩
    | gateName => cases h
    | rotationName => cases h
    | timestep => cases h
    | reference => cases h
    | noControls => cases h
    | repetition => cases h
    | duplicateWire => cases h
    | duplicateName => cases h
  · rintro ⟨hmem, hkind, hbad⟩
    exact .wire (by rintro rfl; cases h) hmem hkind hbad

theorem offends_wiresOnly (h : wiresOnly rule) :
    Offends (.node rule opening parts) tok ↔ BadWireIn parts tok ∨ ∃ t ∈ parts, Offends t tok := by
  rw [offends_node, defect_wiresOnly h]

theorem offends_parts_nil : ¬ ∃ t ∈ ([] : List Tree), Offends t tok := by simp

theorem offends_parts_leaf : (∃ s ∈ .leaf t :: more, Offends s tok) ↔ ∃ s ∈ more, Offends s tok := by
  simp [not_offends_leaf]

theorem offends_parts_cons {s : Tree} :
    (∃ u ∈ s :: more, Offends u tok) ↔ Offends s tok ∨ ∃ u ∈ more, Offends u tok := by
  simp

theorem defect_qgate {name : Token} (hname : name.kind = .string) :
    Defect (.node .qgate opening (.leaf name :: more)) tok ↔
      tok = name ∧ GateOp.lookup (unquoted name) = none ∨ BadWireIn more tok := by
  rw [← badWireIn_other (t := name) (by simp [hname])]
  constructor
  · intro h
    cases h with
    | gateName h => exact .inl ⟨rfl, h⟩
    | wire _ hmem hkind hbad => exact .inr ⟨hmem, hkind, hbad⟩
  · rintro (⟨rfl, h⟩ | ⟨hmem, hkind, hbad⟩)
    · exact .gateName h
    · exact .wire (by simp) hmem hkind hbad

theorem defect_qrot {name step : Token} (hname : name.kind = .string) (hstep : step.kind = .float) :
    Defect (.node .qrot opening (.leaf name :: .leaf step :: more)) tok ↔
      tok = name ∧ RotationOp.lookup (unquoted name) = none ∨ tok = step ∧ BadStep step ∨ BadWireIn more tok := by
  rw [← badWireIn_other (t := step) (by simp [hstep]), ← badWireIn_other (t := name) (by simp [hname])]
  constructor
  · intro h
    cases h with
    | rotationName h => exact .inl ⟨rfl, h⟩
    | timestep h => exact .inr (.inl ⟨rfl, h⟩)
    | wire _ hmem hkind hbad => exact .inr (.inr ⟨hmem, hkind, hbad⟩)
  · rintro (⟨rfl, h⟩ | ⟨rfl, h⟩ | ⟨hmem, hkind, hbad⟩)
    · exact .rotationName h
    · exact .timestep h
    · exact .wire (by simp) hmem hkind hbad

theorem defect_signedList {opening : Token} {refs : List Token} :
    Defect (.node .signedList (some opening) (refs.map .leaf)) tok ↔
      refs = [] ∧ tok = opening ∨ ∃ r ∈ refs, tok = r ∧ BadReference r := by
  constructor
  · intro h
    generalize hparts : refs.map Tree.leaf = parts at h
    cases h with
    | wire hrule => exact absurd rfl hrule
    | reference hmem hbad =>
      subst hparts
      obtain ⟨r, hr, hleaf⟩ := List.mem_map.mp hmem
      cases hleaf
      exact .inr ⟨_, hr, rfl, hbad⟩
    | noControls => exact .inl ⟨List.map_eq_nil_iff.mp hparts, rfl⟩
  · rintro (⟨rfl, rfl⟩ | ⟨r, hr, rfl, hbad⟩)
    · exact .noControls
    · exact .reference (List.mem_map_of_mem hr) hbad

end Parts

theorem finds_toDeclaration {w : List Token} {t : Tree} (h : Grammar.TypeAssignment w t) :
    Finds (Offends t) t.toDeclaration := by
  cases h with
  | intro hwire hcolon htype =>
    rename_i wire colon type
    have htype : type.kind ≠ .integer := by
      rcases htype with h | h <;> simp [(is_iff.mp h).1]
    refine ((finds_wireNumber wire).map _).congr fun tok => ?_
    simp only [offends_wiresOnly (show wiresOnly .typeAssignment from rfl), badWireIn_wire hwire,
      badWireIn_other htype, badWireIn_nil, offends_parts_leaf, offends_parts_nil, or_false]

theorem finds_toControl {w : List Token} {t : Tree} (h : Grammar.ControlApp w t) : Finds (Offends t) t.toControl := by
  have hlist {opening : Token} {refs : List Token} {more : List Tree} (hmore : ∀ tok, ¬ BadWireIn more tok)
      (hbelow : ∀ tok, ¬ ∃ s ∈ more, Offends s tok) :
      let t := Tree.node .controlApp none (.node .signedList (some opening) (refs.map .leaf) :: more)
      Finds (Offends t) t.toControl := by
    have hiff (tok : Token) :
        Offends (.node .controlApp none (.node .signedList (some opening) (refs.map .leaf) :: more)) tok ↔
          refs = [] ∧ tok = opening ∨ ∃ r ∈ refs, tok = r ∧ BadReference r := by
      simp only [offends_wiresOnly (show wiresOnly .controlApp from rfl), badWireIn_node, hmore, hbelow,
        offends_parts_cons, offends_leaves, defect_signedList, or_false, false_or]
    refine Finds.congr ?_ hiff
    rw [toControl]
    cases refs with
    | nil => exact finds_fault (.inl ⟨rfl, rfl⟩)
    | cons r refs =>
      rw [List.map_cons, if_neg (by simp), ← List.map_cons, List.mapM_map]
      refine ((finds_mapM fun r _ => finds_controlRef r).map _).congr fun tok => ?_
      simp
  cases h with
  | none hword =>
    have hkind := (is_iff.mp hword).1
    refine finds_ok fun tok => ?_
    simp [offends_wiresOnly (show wiresOnly .controlApp from rfl), badWireIn_other, hkind, badWireIn_nil,
      not_offends_leaf]
  | list hopening hrefs hclose => exact hlist (fun _ => badWireIn_nil) fun _ => offends_parts_nil
  | listOnly hopening hrefs hclose hwith hword =>
    have hkind := (is_iff.mp hword).1
    refine hlist (fun tok => ?_) fun tok => ?_
    · simp [badWireIn_other, hkind, badWireIn_nil]
    · simp [not_offends_leaf]

theorem badWireIn_control {w : List Token} {t : Tree} (h : Grammar.ControlApp w t) {tok : Token} :
    ¬ BadWireIn [t] tok := by
  cases h <;> exact fun h => badWireIn_nil (badWireIn_node.mp h)

theorem stars_leaves {w : List Token} {ts : List Tree} (h : Grammar.Stars w ts) :
    ∃ us : List Token, ts = us.map .leaf ∧ ∀ u ∈ us, u.kind = .punctuation := by
  cases h with
  | absent => exact ⟨[], rfl, by simp⟩
  | @present t h => exact ⟨[t], rfl, by simp [(is_iff.mp h).1]⟩

theorem not_offends_inversion {us : List Token} (h : ∀ u ∈ us, u.kind = .punctuation) {tok : Token} :
    ¬ Offends (.node .inversion none (us.map .leaf)) tok := by
  rw [offends_leaves, defect_wiresOnly rfl]
  rintro ⟨hmem, hkind, -⟩
  obtain ⟨u, hu, hleaf⟩ := List.mem_map.mp hmem
  cases hleaf
  rw [h _ hu] at hkind
  cases hkind

theorem not_offends_stars {w : List Token} {ts : List Tree} (h : Grammar.Stars w ts) {tok : Token} :
    ¬ Offends (.node .inversion none ts) tok := by
  obtain ⟨us, rfl, hus⟩ := stars_leaves h
  exact not_offends_inversion hus

theorem finds_qgate {w : List Token} {t : Tree} (h : Grammar.QGate w t) : Finds (Offends t) t.toGate := by
  cases h with
  | intro hopening hname hclose hstars hleft hwire hright hwith hcontrol =>
    rename_i opening name close s stars left wire right withWord c control
    have hiff (tok : Token) :
        Offends (.node .qgate (some opening) [.leaf name, .node .inversion none stars, .leaf wire, control]) tok ↔
          tok = name ∧ GateOp.lookup (unquoted name) = none ∨ tok = wire ∧ BadWire wire ∨ Offends control tok := by
      rw [offends_node]
      simp only [defect_qgate hname, badWireIn_node, badWireIn_wire hwire, badWireIn_control hcontrol,
        offends_parts_leaf, offends_parts_cons, offends_parts_nil, not_offends_stars hstars, or_false, false_or,
        or_assoc]
    refine Finds.congr ?_ hiff
    rw [toGate]
    split
    · rename_i hlookup
      exact finds_fault (.inl ⟨rfl, hlookup⟩)
    · rename_i op hlookup
      refine ((finds_wireNumber wire).bind fun _ _ => (finds_toControl hcontrol).map _).congr fun tok => ?_
      simp [hlookup]

theorem finds_qrot {w : List Token} {t : Tree} (h : Grammar.QRot w t) : Finds (Offends t) t.toGate := by
  cases h with
  | intro hopening hname hcomma hstep hclose hstars hleft hwire hright =>
    rename_i opening name comma step close s stars left wire right
    have hiff (tok : Token) :
        Offends (.node .qrot (some opening) [.leaf name, .leaf step, .node .inversion none stars, .leaf wire]) tok ↔
          tok = name ∧ RotationOp.lookup (unquoted name) = none ∨ tok = step ∧ BadStep step ∨
            tok = wire ∧ BadWire wire := by
      rw [offends_node]
      simp only [defect_qrot hname hstep, badWireIn_node, badWireIn_wire hwire, badWireIn_nil, offends_parts_leaf,
        offends_parts_cons, offends_parts_nil, not_offends_stars hstars, or_false]
    refine Finds.congr ?_ hiff
    rw [toGate]
    split
    · rename_i hlookup
      exact finds_fault (.inl ⟨rfl, hlookup⟩)
    · rename_i op hlookup
      split
      · rename_i hoverflow
        exact finds_fault (.inr (.inl ⟨rfl, (Binary64.ofDecimal?_eq_none_iff _).mp hoverflow⟩))
      · rename_i timestep hvalue
        have hstep : ¬ BadStep step := fun h => by
          rw [(Binary64.ofDecimal?_eq_none_iff _).mpr h] at hvalue
          cases hvalue
        refine ((finds_wireNumber wire).map _).congr fun tok => ?_
        simp [hlookup, hstep]

theorem finds_toWireLabel {wire label : Token} (hwire : wire.kind = .integer) (hlabel : label.kind = .string) :
    let t := Tree.node .wire none [.leaf wire, .leaf label]
    Finds (Offends t) t.toWireLabel := by
  refine ((finds_wireNumber wire).map _).congr fun tok => ?_
  simp only [offends_wiresOnly (show wiresOnly .wire from rfl), badWireIn_wire hwire,
    badWireIn_other (t := label) (by simp [hlabel]), badWireIn_nil, offends_parts_leaf, offends_parts_nil, or_false]

theorem finds_qinit {w : List Token} {t : Tree} (h : Grammar.QInit w t) : Finds (Offends t) t.toGate := by
  cases h with
  | intro hword hleft htarget hright hwith hcontrol =>
    rename_i word left v target right withWord control
    have hword : word.kind ≠ .integer := by
      rcases hword with h | h <;> simp [(is_iff.mp h).1]
    cases htarget with
    | bare hwire =>
      refine ((finds_wireNumber _).map _).congr fun tok => ?_
      simp only [offends_wiresOnly (show wiresOnly .qinit from rfl), badWireIn_other hword, badWireIn_wire hwire,
        badWireIn_nil, offends_parts_leaf, offends_parts_nil, or_false]
    | labelled hwire hcolon hlabel =>
      refine ((finds_toWireLabel hwire hlabel).map _).congr fun tok => ?_
      simp only [offends_wiresOnly (show wiresOnly .qinit from rfl), badWireIn_other hword, badWireIn_node,
        badWireIn_nil, offends_parts_leaf, offends_parts_cons, offends_parts_nil, or_false, false_or]

theorem badWireIn_labels {ps : List (Token × Token)} (h : ∀ p ∈ ps, p.1.kind = .integer ∧ p.2.kind = .string)
    {tok : Token} :
    BadWireIn (ps.flatMap fun (w, l) => [.leaf w, .leaf l]) tok ↔ ∃ p ∈ ps, tok = p.1 ∧ BadWire p.1 := by
  induction ps with
  | nil => simp [badWireIn_nil]
  | cons p ps ih =>
    obtain ⟨hwire, hlabel⟩ := h p List.mem_cons_self
    simp only [List.flatMap_cons, List.cons_append, List.nil_append, badWireIn_wire hwire,
      badWireIn_other (t := p.2) (by simp [hlabel]), ih fun q hq => h q (List.mem_cons_of_mem p hq)]
    simp

theorem finds_comment {w : List Token} {t : Tree} (h : Grammar.Comment w t) : Finds (Offends t) t.toGate := by
  cases h with
  | intro hopening htext hclose hleft hlabels hright =>
    rename_i opening text close left v labels right
    have hkinds := (Grammar.filter_labels hlabels).2
    have hbelow (tok : Token) :
        ¬ ∃ s ∈ labels.flatMap fun (w, l) => [.leaf w, .leaf l], Offends s tok := by
      rintro ⟨s, hs, hoffends⟩
      obtain ⟨p, -, hp⟩ := List.mem_flatMap.mp hs
      simp only [List.mem_cons, List.not_mem_nil, or_false] at hp
      rcases hp with rfl | rfl <;> exact not_offends_leaf hoffends
    simp only [toGate, toWireLabels_flat]
    refine ((finds_mapM fun p _ => (finds_wireNumber p.1).map _).map _).congr fun tok => ?_
    simp only [offends_wiresOnly (show wiresOnly .comment from rfl),
      offends_wiresOnly (show wiresOnly .wireLabelList from rfl), badWireIn_other (t := text) (by simp [htext]),
      badWireIn_node, badWireIn_nil, badWireIn_labels hkinds, offends_parts_leaf, offends_parts_cons, hbelow,
      offends_parts_nil, or_false, false_or]

theorem integers_kind {w ts : List Token} (h : Grammar.Integers w ts) : ∀ t ∈ ts, t.kind = .integer := by
  cases h with
  | none => simp
  | some h =>
    intro t ht
    obtain ⟨v, hv, -⟩ := (separated_mem h).2 t ht
    exact of_decide_eq_true hv.2

theorem finds_toWireList {w : List Token} {t : Tree} (h : Grammar.IntList w t) : Finds (Offends t) t.toWireList := by
  cases h with
  | intro h =>
    rename_i ts
    rw [toWireList, List.mapM_map]
    refine (finds_mapM fun u _ => finds_wireNumber u).congr fun tok => ?_
    rw [offends_leaves, defect_wiresOnly rfl, BadWireIn]
    constructor
    · rintro ⟨hmem, -, hbad⟩
      obtain ⟨u, hu, hleaf⟩ := List.mem_map.mp hmem
      cases hleaf
      exact ⟨_, hu, rfl, hbad⟩
    · rintro ⟨u, hu, rfl, hbad⟩
      exact ⟨List.mem_map_of_mem hu, integers_kind h _ hu, hbad⟩

theorem finds_toRepetitions {w : List Token} {ts : List Tree} (h : Grammar.Repetition w ts) :
    Finds (Offends (.node .repetition none ts)) (toRepetitions (.node .repetition none ts)) := by
  cases h with
  | absent =>
    refine finds_ok fun tok h => ?_
    rcases offends_node.mp h with h | h
    · cases h with
      | wire _ hmem => cases hmem
    · exact offends_parts_nil h
  | @present left count right hleft hcount hright =>
    have hiff (tok : Token) : Offends (.node .repetition none [.leaf count]) tok ↔ tok = count ∧ BadCount count := by
      rw [offends_node]
      simp only [offends_parts_leaf, offends_parts_nil, or_false]
      constructor
      · intro h
        cases h with
        | repetition hbad => exact ⟨rfl, hbad⟩
        | wire _ hmem hkind =>
          simp only [List.mem_singleton, leaf.injEq] at hmem
          subst hmem
          rw [hcount] at hkind
          cases hkind
      · rintro ⟨rfl, hbad⟩
        exact .repetition hbad
    refine Finds.congr ?_ hiff
    rw [toRepetitions]
    split
    · rename_i n hnumber
      obtain ⟨hlt, rfl⟩ := number?_eq_some.mp hnumber
      have hzero : Int64.ofNat (natValue (count.text.drop 1)) < 1 ↔ natValue (count.text.drop 1) = 0 := by
        have hone : (1 : Int64).toInt = 1 := rfl
        rw [Int64.lt_iff_toInt_lt, Int64.toInt_ofNat_of_lt hlt]
        omega
      split
      · rename_i hn
        exact finds_fault ⟨rfl, .inl (hzero.mp hn)⟩
      · rename_i hn
        refine finds_ok ?_
        rintro tok ⟨rfl, h | h⟩
        · exact hn (hzero.mpr h)
        · exact absurd hlt (Nat.not_lt.mpr h)
    · rename_i hnumber
      exact finds_fault ⟨rfl, .inr (number?_eq_none.mp hnumber)⟩

theorem badWireIn_wires {w : List Token} {t : Tree} (h : Grammar.WiresInParens w t) {more : List Tree} {tok : Token} :
    BadWireIn (t :: more) tok ↔ BadWireIn more tok := by
  obtain ⟨-, ⟨-⟩, -⟩ := h
  exact badWireIn_node

theorem badWireIn_callControl {w : List Token} {t : Tree} (h : Grammar.CallControl w t) {tok : Token} :
    ¬ BadWireIn [t] tok := by
  cases h with
  | absent => exact fun h => badWireIn_nil (badWireIn_node.mp h)
  | present hwith h => exact badWireIn_control h

theorem finds_callControl {w : List Token} {t : Tree} (h : Grammar.CallControl w t) :
    Finds (Offends t) t.toControl := by
  cases h with
  | absent =>
    refine finds_ok fun tok h => ?_
    rw [offends_wiresOnly rfl] at h
    exact h.elim badWireIn_nil offends_parts_nil
  | present hwith h => exact finds_toControl h

theorem finds_wires {w : List Token} {t : Tree} (h : Grammar.WiresInParens w t) : Finds (Offends t) t.toWireList := by
  obtain ⟨-, h, -⟩ := h
  exact finds_toWireList h

theorem finds_call {w : List Token} {t : Tree} (h : Grammar.SubroutineCall w t) : Finds (Offends t) t.toGate := by
  cases h with
  | intro hopening hcount hstars hleft hname hcomma hshapeWord hshape hright hstars' hinputs harrow houtputs
      hcontrol =>
    rename_i opening r count s stars left name comma shapeWord shape right s' stars' i inputs arrow o outputs c control
    obtain ⟨us, rfl, hus⟩ := stars_leaves hstars
    obtain ⟨us', rfl, hus'⟩ := stars_leaves hstars'
    have hboth : ∀ u ∈ us ++ us', u.kind = .punctuation := List.forall_mem_append.mpr ⟨hus, hus'⟩
    rw [← List.map_append]
    have hname : name.kind ≠ .integer := by simp [hname]
    have hshape : shape.kind ≠ .integer := by simp [hshape]
    refine ((finds_toRepetitions hcount).bind fun _ _ => (finds_wires hinputs).bind fun _ _ =>
      (finds_wires houtputs).bind fun _ _ => (finds_callControl hcontrol).map _).congr fun tok => ?_
    simp only [offends_wiresOnly (show wiresOnly .subroutineCall from rfl), badWireIn_node, badWireIn_other hname,
      badWireIn_other hshape, badWireIn_wires hinputs, badWireIn_wires houtputs, badWireIn_callControl hcontrol,
      offends_parts_leaf, offends_parts_cons, offends_parts_nil, not_offends_inversion hboth, or_false, false_or]

theorem finds_toGate {w : List Token} {t : Tree} (h : Grammar.Gate w t) : Finds (Offends t) t.toGate := by
  cases h with
  | qgate h => exact finds_qgate h
  | qrot h => exact finds_qrot h
  | qinit h => exact finds_qinit h
  | comment h => exact finds_comment h
  | call h => exact finds_call h

theorem toDeclarations_eq_error {list : Bytes} {seen : List Wire} {t : Tree} {ts : List Tree} {e : SemanticFault}
    (h : toDeclarations list seen (t :: ts) = .error e) : t.toDeclaration = .error e ∨
      ∃ d, t.toDeclaration = .ok d ∧
        (d.wire ∈ seen ∧ e.pos = t.pos ∨ toDeclarations list (d.wire :: seen) ts = .error e) := by
  refine (bind_eq_error.mp h).imp_right ?_
  rintro ⟨d, hd, h⟩
  refine ⟨d, hd, ?_⟩
  split at h
  · rename_i hseen
    refine .inl ⟨hseen, ?_⟩
    split at h
    · rename_i w hfirst
      cases h
      simp [pos, hfirst]
    · cases h
      rfl
  · rcases bind_eq_error.mp h with h | ⟨later, -, h⟩
    · exact .inr h
    · cases h

theorem sameWire_of_declarations {w w' : List Token} {s t : Tree} {d d' : Declaration}
    (hs : Grammar.TypeAssignment w s) (ht : Grammar.TypeAssignment w' t) (hd : s.toDeclaration = .ok d)
    (hd' : t.toDeclaration = .ok d') :
    (d.wire = d'.wire → ∃ tok, SameWire s t tok ∧ tok.pos = t.pos) ∧ ∀ tok, SameWire s t tok → d.wire = d'.wire := by
  cases hs with
  | intro =>
    cases ht with
    | intro =>
      obtain ⟨n, hn, hd⟩ := bind_eq_ok.mp hd
      cases hd
      obtain ⟨n', hn', hd'⟩ := bind_eq_ok.mp hd'
      cases hd'
      obtain ⟨hlt, rfl⟩ := wireNumber_eq_ok hn
      obtain ⟨hlt', rfl⟩ := wireNumber_eq_ok hn'
      refine ⟨fun h => ⟨_, .intro (ofNat_inj_of_lt hlt hlt' h), rfl⟩, ?_⟩
      rintro tok ⟨h⟩
      exact congrArg Int64.ofNat h

theorem finds_toArity {w : List Token} {t : Tree} (list : Bytes) (h : Grammar.Arity w t) :
    Finds (Offends t) (t.toArity list) := by
  cases h with
  | intro h =>
    rename_i items
    have hitem : ∀ s ∈ items, ∃ v, Grammar.TypeAssignment v s := fun s hs =>
      have ⟨v, hv, _⟩ := (separated_mem h).2 s hs
      ⟨v, hv⟩
    refine (finds_distinct Offends SameWire (toDeclarations list) (fun _ => rfl) toDeclarations_eq_error
      toDeclarations_eq_ok ?_ ?_).congr fun tok => ?_
    · intro s hs
      obtain ⟨v, hv⟩ := hitem s hs
      exact finds_toDeclaration hv
    · intro s t d d' hs ht hd hd'
      obtain ⟨v, hv⟩ := hitem s hs
      obtain ⟨v', hv'⟩ := hitem t ht
      exact sameWire_of_declarations hv hv' hd hd'
    · rw [offends_node, or_comm]
      refine or_congr_right ?_
      constructor
      · intro h
        cases h with
        | duplicateWire hsub hsame => exact ⟨_, _, hsub, hsame⟩
        | wire _ hmem =>
          obtain ⟨v, hv⟩ := hitem _ hmem
          cases hv
      · rintro ⟨s, t, hsub, hsame⟩
        exact .duplicateWire hsub hsame

theorem finds_toIoStatement {word : Bytes} {w : List Token} {t : Tree} (h : Grammar.Declarations word w t) :
    Finds (Offends t) t.toIoStatement := by
  cases h with
  | intro hdirection hcolon hlist =>
    have hkind := (is_iff.mp hdirection).1
    refine ((finds_toArity _ hlist).map _).congr fun tok => ?_
    rw [offends_wiresOnly rfl, badWireIn_other (by simp [hkind]), offends_parts_leaf, offends_parts_cons]
    cases hlist with
    | intro h => simp only [badWireIn_node, badWireIn_nil, offends_parts_nil, or_false, false_or]

theorem not_gate_leaf {w : List Token} {tok : Token} : ¬ Grammar.Gate w (.leaf tok) := by
  rintro (⟨⟨⟩⟩ | ⟨⟨⟩⟩ | ⟨⟨⟩⟩ | ⟨⟨⟩⟩ | ⟨⟨⟩⟩)

theorem badWireIn_statements {i o ls : List Token} {inputs outputs : Tree} {gates : List Tree} {word word' : Bytes}
    (hinputs : Grammar.Declarations word i inputs) (hgates : Lines Grammar.Gate ls gates)
    (houtputs : Grammar.Declarations word' o outputs) {tok : Token} :
    ¬ BadWireIn (inputs :: (gates ++ [outputs])) tok := by
  cases hinputs
  cases houtputs
  rintro ⟨hmem, -⟩
  simp only [List.mem_cons, List.mem_append, reduceCtorEq, List.not_mem_nil, or_false, false_or] at hmem
  obtain ⟨v, hv, -⟩ := lines_mem hgates _ hmem
  exact not_gate_leaf hv

theorem finds_toCircuit {w : List Token} {t : Tree} (h : Grammar.Circuit w t) : Finds (Offends t) t.toCircuit := by
  cases h with
  | intro hnl hinputs hlines hnl' hne houtputs =>
    rename_i nl i inputs ls gates nl' o outputs
    have hgate : ∀ g ∈ gates, Finds (Offends g) g.toGate := fun g hg =>
      have ⟨_, hv, _⟩ := lines_mem hlines g hg
      finds_toGate hv
    simp only [toCircuit, List.cons_append, List.getLast?_concat, List.dropLast_concat]
    refine ((finds_toIoStatement hinputs).bind fun _ _ => (finds_toIoStatement houtputs).bind fun _ _ =>
      (finds_mapM hgate).map _).congr fun tok => ?_
    rw [offends_wiresOnly rfl, or_iff_right (badWireIn_statements hinputs hlines houtputs)]
    simp only [offends_parts_cons, List.mem_append, List.mem_singleton, or_and_right, exists_or, exists_eq_left]
    rw [or_comm (a := ∃ g, g ∈ gates ∧ Offends g tok)]

theorem finds_toSubroutine {w : List Token} {t : Tree} (h : Grammar.Subroutine w t) :
    Finds (Offends t) t.toSubroutine := by
  cases h with
  | intro hopening hname hnl hshapeWord hshape hnl' hcontrolWord hword hnl'' hne hbody =>
    rename_i opening name nl shapeWord shape nl' controlWord controllable nl'' b body
    have hword : controllable.kind ≠ .integer := by
      rcases hword with h | h | h <;> simp [(is_iff.mp h).1]
    refine ((finds_toCircuit hbody).map _).congr fun tok => ?_
    rw [offends_wiresOnly rfl, badWireIn_other (by simp [hname]), badWireIn_other (by simp [hshape]),
      badWireIn_other hword]
    cases hbody with
    | intro => simp only [badWireIn_node, badWireIn_nil, offends_parts_leaf, offends_parts_cons, offends_parts_nil,
        or_false, false_or]

def namePos (t : Tree) : Position := (t.nameToken?.map Token.pos).getD t.pos

theorem toSubroutines_eq_error {seen : List Bytes} {t : Tree} {ts : List Tree} {e : SemanticFault}
    (h : toSubroutines seen (t :: ts) = .error e) : t.toSubroutine = .error e ∨
      ∃ s, t.toSubroutine = .ok s ∧
        (s.name ∈ seen ∧ e.pos = t.namePos ∨ toSubroutines (s.name :: seen) ts = .error e) := by
  refine (bind_eq_error.mp h).imp_right ?_
  rintro ⟨s, hs, h⟩
  refine ⟨s, hs, ?_⟩
  split at h
  · rename_i hseen
    refine .inl ⟨hseen, ?_⟩
    split at h
    · rename_i name hname
      cases h
      simp [namePos, hname]
    · rename_i hname
      cases h
      simp [namePos, hname]
  · rcases bind_eq_error.mp h with h | ⟨later, -, h⟩
    · exact .inr h
    · cases h

theorem sameName_of_subroutines {w w' : List Token} {t t' : Tree} {s s' : Subroutine}
    (ht : Grammar.Subroutine w t) (ht' : Grammar.Subroutine w' t') (hs : t.toSubroutine = .ok s)
    (hs' : t'.toSubroutine = .ok s') :
    (s.name = s'.name → ∃ tok, SameName t t' tok ∧ tok.pos = t'.namePos) ∧
      ∀ tok, SameName t t' tok → s.name = s'.name := by
  cases ht with
  | intro =>
    cases ht' with
    | intro =>
      obtain ⟨c, -, hs⟩ := bind_eq_ok.mp hs
      cases hs
      obtain ⟨c', -, hs'⟩ := bind_eq_ok.mp hs'
      cases hs'
      refine ⟨fun h => ⟨_, .intro h, rfl⟩, ?_⟩
      rintro tok ⟨h⟩
      exact h

theorem finds_toProgram {w : List Token} {t : Tree} (h : Grammar.Program w t) : Finds (Offends t) t.toProgram := by
  cases h with
  | intro hmain hlines =>
    rename_i c main ls subs
    have hsub : ∀ s ∈ subs, ∃ v, Grammar.Subroutine v s := fun s hs =>
      have ⟨v, hv, _⟩ := lines_mem hlines s hs
      ⟨v, hv⟩
    have hsubs : Finds (fun tok => (∃ s ∈ subs, Offends s tok) ∨ ∃ s t, [s, t].Sublist subs ∧ SameName s t tok)
        (toSubroutines [] subs) := by
      refine finds_distinct Offends SameName toSubroutines (fun _ => rfl) toSubroutines_eq_error
        toSubroutines_eq_ok ?_ ?_
      · intro s hs
        obtain ⟨v, hv⟩ := hsub s hs
        exact finds_toSubroutine hv
      · intro s t d d' hs ht hd hd'
        obtain ⟨v, hv⟩ := hsub s hs
        obtain ⟨v', hv'⟩ := hsub t ht
        exact sameName_of_subroutines hv hv' hd hd'
    refine ((finds_toCircuit hmain).bind fun _ _ => hsubs.map _).congr fun tok => ?_
    -- no wire is among the parts, and the main circuit is none of two definitions
    have hdefect : Defect (.node .program none (main :: subs)) tok ↔
        ∃ s t, [s, t].Sublist subs ∧ SameName s t tok := by
      constructor
      · intro h
        cases h with
        | wire _ hmem =>
          rcases List.mem_cons.mp hmem with rfl | hmem
          · cases hmain
          · obtain ⟨v, hv⟩ := hsub _ hmem
            cases hv
        | duplicateName hpair hsame =>
          cases hpair with
          | cons _ hpair => exact ⟨_, _, hpair, hsame⟩
          | cons_cons _ _ =>
            cases hsame
            cases hmain
      · rintro ⟨s, t, hpair, hsame⟩
        exact .duplicateName (hpair.cons main) hsame
    rw [offends_node, hdefect, offends_parts_cons, or_comm, or_assoc]

end CircuitDesk.Tree
