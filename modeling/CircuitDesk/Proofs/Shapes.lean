import CircuitDesk.Proofs.Finding.Rules

namespace CircuitDesk

namespace Rule

def partRules : Rule → List Rule
  | program => [circuit, subroutine]
  | circuit => [ioStatement, qgate, qrot, qinit, comment, subroutineCall]
  | ioStatement => [terminal, arity]
  | arity => [typeAssignment]
  | qgate => [terminal, inversion, controlApp]
  | qrot => [terminal, inversion]
  | qinit => [terminal, wire]
  | comment => [terminal, wireLabelList]
  | subroutineCall => [repetition, terminal, inversion, intList, controlApp]
  | controlApp => [signedList, terminal]
  | subroutine => [terminal, circuit]
  | typeAssignment | wire | intList | inversion | repetition | wireLabelList | signedList => [terminal]
  | gate | terminal | unknown _ => []

def gates : List Rule := [qgate, qrot, qinit, comment, subroutineCall]

end Rule

def Token.OneOf (t : Token) (kind : Token.Kind) (texts : List Bytes) : Prop := t.kind = kind ∧ t.text ∈ texts

theorem Token.oneOf_of_is {t : Token} {kind : Token.Kind} {text : Bytes} {texts : List Bytes} (h : t.is kind text)
    (htext : text ∈ texts) : t.OneOf kind texts := by
  obtain ⟨hkind, rfl⟩ := Grammar.is_iff.mp h
  exact ⟨hkind, htext⟩

namespace Tree

@[simp] theorem rule_leaf (t : Token) : (leaf t).rule = .terminal := rfl

@[simp] theorem rule_node (rule : Rule) (opening : Option Token) (parts : List Tree) :
    (node rule opening parts).rule = rule := rfl

def labelParts (ps : List (Token × Token)) : List Tree := ps.flatMap fun (w, l) => [.leaf w, .leaf l]

inductive Shape : Tree → Prop
  | leaf {t} : Shape (.leaf t)
  | program {main subs} : main.rule = .circuit → (∀ s ∈ subs, s.rule = .subroutine) →
      Shape (.node .program none (main :: subs))
  | circuit {inputs gates outputs} : inputs.rule = .ioStatement → (∀ g ∈ gates, g.rule ∈ Rule.gates) →
      outputs.rule = .ioStatement → Shape (.node .circuit none (inputs :: gates ++ [outputs]))
  | ioStatement {word list} : word.OneOf .keyword ["Inputs", "Outputs"] → list.rule = .arity →
      Shape (.node .ioStatement none [.leaf word, list])
  | arity {items} : items ≠ [] → (∀ i ∈ items, i.rule = .typeAssignment) → Shape (.node .arity none items)
  | typeAssignment {wire type} : wire.kind = .integer → type.OneOf .keyword ["Qbit", "Cbit"] →
      Shape (.node .typeAssignment none [.leaf wire, .leaf type])
  | intList {ws : List Token} : (∀ w ∈ ws, w.kind = .integer) → Shape (.node .intList none (ws.map .leaf))
  | signedList {opening} {refs : List Token} : opening.is .opener "controls=[" → (∀ r ∈ refs, r.kind = .integer) →
      Shape (.node .signedList (some opening) (refs.map .leaf))
  | uncontrolled : Shape (.node .controlApp none [])
  | noControl {word} : word.is .keyword "nocontrol" → Shape (.node .controlApp none [.leaf word])
  | controls {refs} : refs.rule = .signedList → Shape (.node .controlApp none [refs])
  | controlsOnly {refs word} : refs.rule = .signedList → word.is .keyword "nocontrol" →
      Shape (.node .controlApp none [refs, .leaf word])
  | inversion {stars : List Token} : (∀ s ∈ stars, s.is .punctuation "*") → stars.length ≤ 2 →
      Shape (.node .inversion none (stars.map .leaf))
  | qgate {opening name stars wire control} : opening.is .opener "QGate[" → name.kind = .string →
      stars.rule = .inversion → wire.kind = .integer → control.rule = .controlApp →
      Shape (.node .qgate (some opening) [.leaf name, stars, .leaf wire, control])
  | qrot {opening name step stars wire} : opening.is .opener "QRot[" → name.kind = .string → step.kind = .float →
      stars.rule = .inversion → wire.kind = .integer →
      Shape (.node .qrot (some opening) [.leaf name, .leaf step, stars, .leaf wire])
  | bareInit {word wire} : word.OneOf .keyword ["QInit0", "QInit1"] → wire.kind = .integer →
      Shape (.node .qinit (some word) [.leaf word, .leaf wire])
  | labelledInit {word target} : word.OneOf .keyword ["QInit0", "QInit1"] → target.rule = .wire →
      Shape (.node .qinit (some word) [.leaf word, target])
  | wire {wire label} : wire.kind = .integer → label.kind = .string →
      Shape (.node .wire none [.leaf wire, .leaf label])
  | wireLabelList {ps : List (Token × Token)} : (∀ p ∈ ps, p.1.kind = .integer ∧ p.2.kind = .string) →
      Shape (.node .wireLabelList none (labelParts ps))
  | comment {opening text labels} : opening.is .opener "Comment[" → text.kind = .string →
      labels.rule = .wireLabelList → Shape (.node .comment (some opening) [.leaf text, labels])
  | repetition {counts : List Token} : (∀ c ∈ counts, c.kind = .repetition) → counts.length ≤ 1 →
      Shape (.node .repetition none (counts.map .leaf))
  | subroutineCall {opening count name shape stars inputs outputs control} : opening.is .keyword "Subroutine" →
      count.rule = .repetition → name.kind = .string → shape.kind = .string → stars.rule = .inversion →
      inputs.rule = .intList → outputs.rule = .intList → control.rule = .controlApp →
      Shape (.node .subroutineCall (some opening)
        [count, .leaf name, .leaf shape, stars, inputs, outputs, control])
  | subroutine {opening name shape word body} : opening.is .header "Subroutine:" → name.kind = .string →
      shape.kind = .string → word.OneOf .keyword ["yes", "no", "classically"] → body.rule = .circuit →
      Shape (.node .subroutine (some opening) [.leaf name, .leaf shape, .leaf word, body])

def WellShaped (t : Tree) : Prop := ∀ s, Within s t → Shape s

section

variable {rule : Rule} {opening : Option Token} {parts : List Tree}

theorem wellShaped_leaf (t : Token) : WellShaped (.leaf t) := fun s hs => by
  rw [within_leaf.mp hs]
  exact .leaf

theorem wellShaped_node : WellShaped (.node rule opening parts) ↔
    Shape (.node rule opening parts) ∧ ∀ t ∈ parts, t.WellShaped := by
  simp only [WellShaped, within_node]
  constructor
  · exact fun h => ⟨h _ (.inl rfl), fun t ht s hs => h s (.inr ⟨t, ht, hs⟩)⟩
  · rintro ⟨hshape, hparts⟩ s (rfl | ⟨t, ht, hs⟩)
    · exact hshape
    · exact hparts t ht s hs

theorem wellShaped_leaves {ts : List Token} (h : Shape (.node rule opening (ts.map .leaf))) :
    WellShaped (.node rule opening (ts.map .leaf)) :=
  wellShaped_node.mpr ⟨h, List.forall_mem_map.mpr fun t _ => wellShaped_leaf t⟩

theorem WellShaped.shape {t : Tree} (h : t.WellShaped) : Shape t := h t .self

theorem WellShaped.part (h : WellShaped (.node rule opening parts)) : ∀ t ∈ parts, t.WellShaped :=
  (wellShaped_node.mp h).2

theorem Shape.part_rule (h : Shape (.node rule opening parts)) {t : Tree} (ht : t ∈ parts) :
    t.rule ∈ rule.partRules := by
  have hleaves {us : List Token} (ht : t ∈ us.map Tree.leaf) : t.rule ∈ [Rule.terminal] := by
    obtain ⟨u, -, rfl⟩ := List.mem_map.mp ht
    exact List.mem_singleton_self _
  cases h with
  | program hmain hsubs =>
    rcases List.mem_cons.mp ht with rfl | ht
    · simp [hmain, Rule.partRules]
    · simp [hsubs t ht, Rule.partRules]
  | circuit hinputs hgates houtputs =>
    rw [List.cons_append, List.mem_cons, List.mem_append, List.mem_singleton] at ht
    rcases ht with rfl | ht | rfl
    · simp [hinputs, Rule.partRules]
    · exact List.mem_cons_of_mem _ (hgates t ht)
    · simp [houtputs, Rule.partRules]
  | arity hne hitems => exact List.mem_singleton.mpr (hitems t ht)
  | intList | signedList | inversion | repetition => exact hleaves ht
  | uncontrolled => cases ht
  | wireLabelList =>
    obtain ⟨p, -, hp⟩ := List.mem_flatMap.mp ht
    simp only [List.mem_cons, List.not_mem_nil, or_false] at hp
    rcases hp with rfl | rfl <;> exact List.mem_singleton_self _
  | _ =>
    simp only [List.mem_cons, List.not_mem_nil, or_false] at ht
    rcases ht with rfl | rfl | rfl | rfl | rfl | rfl | rfl <;> simp [*, Rule.partRules]

end

end Tree

namespace Grammar

open Token (oneOf_of_is)
open CircuitDesk.Tree (WellShaped labelParts wellShaped_leaf wellShaped_leaves wellShaped_node)
open CircuitDesk.Tree.Reading

variable {w : List Token} {t : Tree}

theorem shaped_separated {L : Phrase Tree} {rule : Rule} {ts : List Tree}
    (hL : ∀ {w t}, L w t → t.rule = rule ∧ t.WellShaped) (h : Separated L w ts) :
    ts ≠ [] ∧ (∀ t ∈ ts, t.rule = rule) ∧ ∀ t ∈ ts, t.WellShaped := by
  obtain ⟨hne, hmem⟩ := separated_mem h
  refine ⟨hne, fun t ht => ?_, fun t ht => ?_⟩ <;> obtain ⟨v, hv, -⟩ := hmem t ht
  · exact (hL hv).1
  · exact (hL hv).2

theorem shaped_typeAssignment (h : TypeAssignment w t) : t.rule = .typeAssignment ∧ t.WellShaped := by
  cases h with
  | @intro wire colon type hwire hcolon htype =>
    have htype : type.OneOf .keyword ["Qbit", "Cbit"] := htype.elim (oneOf_of_is · (by simp)) (oneOf_of_is · (by simp))
    exact ⟨rfl, wellShaped_node.mpr ⟨.typeAssignment hwire htype, by simp [wellShaped_leaf]⟩⟩

theorem shaped_arity (h : Arity w t) : t.rule = .arity ∧ t.WellShaped := by
  cases h with
  | intro h =>
    obtain ⟨hne, hrules, hitems⟩ := shaped_separated shaped_typeAssignment h
    exact ⟨rfl, wellShaped_node.mpr ⟨.arity hne hrules, hitems⟩⟩

theorem shaped_declarations {word : Bytes} (hword : word ∈ (["Inputs", "Outputs"] : List Bytes))
    (h : Declarations word w t) : t.rule = .ioStatement ∧ t.WellShaped := by
  cases h with
  | intro hdirection hcolon hlist =>
    obtain ⟨hrule, hlist⟩ := shaped_arity hlist
    exact ⟨rfl, wellShaped_node.mpr
      ⟨.ioStatement (oneOf_of_is hdirection hword) hrule, by simp [wellShaped_leaf, hlist]⟩⟩

theorem shaped_ioStatement (h : IoStatement w t) : t.rule = .ioStatement ∧ t.WellShaped :=
  h.elim (shaped_declarations (by simp)) (shaped_declarations (by simp))

theorem shaped_intList (h : IntList w t) : t.rule = .intList ∧ t.WellShaped := by
  cases h with
  | intro h => exact ⟨rfl, wellShaped_leaves (.intList (Tree.integers_kind h))⟩

theorem shaped_controlApp (h : ControlApp w t) : t.rule = .controlApp ∧ t.WellShaped := by
  have hlist {opening : Token} {v refs : List Token} (hopening : opening.is .opener "controls=[")
      (hrefs : Integers v refs) : WellShaped (.node .signedList (some opening) (refs.map .leaf)) :=
    wellShaped_leaves (.signedList hopening (Tree.integers_kind hrefs))
  cases h with
  | none hword => exact ⟨rfl, wellShaped_node.mpr ⟨.noControl hword, by simp [wellShaped_leaf]⟩⟩
  | list hopening hrefs => exact ⟨rfl, wellShaped_node.mpr ⟨.controls rfl, by simp [hlist hopening hrefs]⟩⟩
  | listOnly hopening hrefs hclose hwith hword =>
    exact ⟨rfl, wellShaped_node.mpr ⟨.controlsOnly rfl hword, by simp [wellShaped_leaf, hlist hopening hrefs]⟩⟩

theorem shaped_callControl (h : CallControl w t) : t.rule = .controlApp ∧ t.WellShaped := by
  cases h with
  | absent => exact ⟨rfl, wellShaped_node.mpr ⟨.uncontrolled, by simp⟩⟩
  | present hwith h => exact shaped_controlApp h

theorem stars_words {ts : List Tree} (h : Stars w ts) :
    ∃ us : List Token, ts = us.map .leaf ∧ (∀ u ∈ us, u.is .punctuation "*") ∧ us.length ≤ 1 := by
  cases h with
  | absent => exact ⟨[], by simp⟩
  | @present t h => exact ⟨[t], by simp [h]⟩

theorem shaped_stars {ts : List Tree} (h : Stars w ts) : WellShaped (.node .inversion none ts) := by
  obtain ⟨us, rfl, hus, hlength⟩ := stars_words h
  exact wellShaped_leaves (.inversion hus (by omega))

theorem shaped_bothStars {w' : List Token} {ts ts' : List Tree} (h : Stars w ts) (h' : Stars w' ts') :
    WellShaped (.node .inversion none (ts ++ ts')) := by
  obtain ⟨us, rfl, hus, hlength⟩ := stars_words h
  obtain ⟨us', rfl, hus', hlength'⟩ := stars_words h'
  rw [← List.map_append]
  refine wellShaped_leaves (.inversion (List.forall_mem_append.mpr ⟨hus, hus'⟩) ?_)
  rw [List.length_append]
  omega

theorem shaped_wire (h : Wire w t) : t.rule = .wire ∧ t.WellShaped := by
  cases h with
  | intro h =>
    cases h with
    | intro hwire hcolon hlabel =>
      exact ⟨rfl, wellShaped_node.mpr ⟨.wire hwire hlabel, by simp [wellShaped_leaf]⟩⟩

theorem shaped_labels {ps : List (Token × Token)} (h : Labels w ps) :
    WellShaped (.node .wireLabelList none (labelParts ps)) := by
  refine wellShaped_node.mpr ⟨.wireLabelList (filter_labels h).2, fun t ht => ?_⟩
  obtain ⟨p, -, hp⟩ := List.mem_flatMap.mp ht
  simp only [List.mem_cons, List.not_mem_nil, or_false] at hp
  rcases hp with rfl | rfl <;> exact wellShaped_leaf _

theorem shaped_repetition {ts : List Tree} (h : Repetition w ts) : WellShaped (.node .repetition none ts) := by
  obtain ⟨counts, rfl, hcounts, hlength⟩ : ∃ counts : List Token,
      ts = counts.map .leaf ∧ (∀ c ∈ counts, c.kind = .repetition) ∧ counts.length ≤ 1 := by
    cases h with
    | absent => exact ⟨[], by simp⟩
    | @present left count right hleft hcount hright => exact ⟨[count], by simp [hcount]⟩
  exact wellShaped_leaves (.repetition hcounts hlength)

theorem shaped_wires (h : WiresInParens w t) : t.rule = .intList ∧ t.WellShaped := by
  cases h with
  | intro hleft h hright => exact shaped_intList h

theorem shaped_qgate (h : QGate w t) : t.rule = .qgate ∧ t.WellShaped := by
  cases h with
  | intro hopening hname hclose hstars hleft hwire hright hwith hcontrol =>
    obtain ⟨hrule, hcontrol⟩ := shaped_controlApp hcontrol
    exact ⟨rfl, wellShaped_node.mpr
      ⟨.qgate hopening hname rfl hwire hrule, by simp [wellShaped_leaf, shaped_stars hstars, hcontrol]⟩⟩

theorem shaped_qrot (h : QRot w t) : t.rule = .qrot ∧ t.WellShaped := by
  cases h with
  | intro hopening hname hcomma hstep hclose hstars hleft hwire hright =>
    exact ⟨rfl, wellShaped_node.mpr
      ⟨.qrot hopening hname hstep rfl hwire, by simp [wellShaped_leaf, shaped_stars hstars]⟩⟩

theorem shaped_qinit (h : QInit w t) : t.rule = .qinit ∧ t.WellShaped := by
  cases h with
  | @intro word left v target right withWord control hword hleft htarget hright hwith hcontrol =>
    have hword : word.OneOf .keyword ["QInit0", "QInit1"] :=
      hword.elim (oneOf_of_is · (by simp)) (oneOf_of_is · (by simp))
    cases htarget with
    | bare hwire => exact ⟨rfl, wellShaped_node.mpr ⟨.bareInit hword hwire, by simp [wellShaped_leaf]⟩⟩
    | labelled hwire hcolon hlabel =>
      obtain ⟨hrule, htarget⟩ := shaped_wire (.intro (.intro hwire hcolon hlabel))
      exact ⟨rfl, wellShaped_node.mpr ⟨.labelledInit hword hrule, by simpa [wellShaped_leaf] using htarget⟩⟩

theorem shaped_comment (h : Comment w t) : t.rule = .comment ∧ t.WellShaped := by
  cases h with
  | intro hopening htext hclose hleft hlabels hright =>
    exact ⟨rfl, wellShaped_node.mpr ⟨.comment hopening htext rfl,
      List.forall_mem_cons.mpr ⟨wellShaped_leaf _, List.forall_mem_singleton.mpr (shaped_labels hlabels)⟩⟩⟩

theorem shaped_call (h : SubroutineCall w t) : t.rule = .subroutineCall ∧ t.WellShaped := by
  cases h with
  | intro hopening hcount hstars hleft hname hcomma hshapeWord hshape hright hstars' hinputs harrow houtputs hcontrol =>
    obtain ⟨hinputs, hshapedInputs⟩ := shaped_wires hinputs
    obtain ⟨houtputs, hshapedOutputs⟩ := shaped_wires houtputs
    obtain ⟨hcontrol, hshapedControl⟩ := shaped_callControl hcontrol
    refine ⟨rfl, wellShaped_node.mpr
      ⟨.subroutineCall hopening rfl hname hshape rfl hinputs houtputs hcontrol, ?_⟩⟩
    simp [wellShaped_leaf, shaped_repetition hcount, shaped_bothStars hstars hstars', hshapedInputs,
      hshapedOutputs, hshapedControl]

theorem shaped_gate (h : Gate w t) : t.rule ∈ Rule.gates ∧ t.WellShaped := by
  have among {rule : Rule} (hrule : rule ∈ Rule.gates) (h : t.rule = rule ∧ t.WellShaped) :
      t.rule ∈ Rule.gates ∧ t.WellShaped := ⟨h.1 ▸ hrule, h.2⟩
  cases h with
  | qgate h => exact among (by decide) (shaped_qgate h)
  | qrot h => exact among (by decide) (shaped_qrot h)
  | qinit h => exact among (by decide) (shaped_qinit h)
  | comment h => exact among (by decide) (shaped_comment h)
  | call h => exact among (by decide) (shaped_call h)

theorem shaped_circuit (h : Circuit w t) : t.rule = .circuit ∧ t.WellShaped := by
  cases h with
  | @intro nl i inputs ls gates nl' o outputs hnl hi hls hnl' hne ho =>
    obtain ⟨hinputs, hshapedInputs⟩ := shaped_declarations (by simp) hi
    obtain ⟨houtputs, hshapedOutputs⟩ := shaped_declarations (by simp) ho
    have hgates (g : Tree) (hg : g ∈ gates) : g.rule ∈ Rule.gates ∧ g.WellShaped := by
      obtain ⟨v, hv, -⟩ := lines_mem hls g hg
      exact shaped_gate hv
    refine ⟨rfl, wellShaped_node.mpr ⟨.circuit hinputs (fun g hg => (hgates g hg).1) houtputs, fun u hu => ?_⟩⟩
    rw [List.cons_append, List.mem_cons, List.mem_append, List.mem_singleton] at hu
    rcases hu with rfl | hu | rfl
    · exact hshapedInputs
    · exact (hgates u hu).2
    · exact hshapedOutputs

theorem shaped_subroutine (h : Subroutine w t) : t.rule = .subroutine ∧ t.WellShaped := by
  cases h with
  | @intro _ _ _ _ _ _ _ controllable _ _ _ hopening hname hnl hshapeWord hshape hnl' hcontrolWord hword _ _ hbody =>
    obtain ⟨hrule, hbody⟩ := shaped_circuit hbody
    have hword : controllable.OneOf .keyword ["yes", "no", "classically"] := hword.elim (oneOf_of_is · (by simp))
      fun h => h.elim (oneOf_of_is · (by simp)) (oneOf_of_is · (by simp))
    exact ⟨rfl, wellShaped_node.mpr
      ⟨.subroutine hopening hname hshape hword hrule, by simp [wellShaped_leaf, hbody]⟩⟩

theorem shaped_program (h : Program w t) : t.rule = .program ∧ t.WellShaped := by
  cases h with
  | @intro c main ls subs hmain hls =>
    obtain ⟨hrule, hmain⟩ := shaped_circuit hmain
    have hsubs (s : Tree) (hs : s ∈ subs) : s.rule = .subroutine ∧ s.WellShaped := by
      obtain ⟨v, hv, -⟩ := lines_mem hls s hs
      exact shaped_subroutine hv
    exact ⟨rfl, wellShaped_node.mpr ⟨.program hrule fun s hs => (hsubs s hs).1,
      List.forall_mem_cons.mpr ⟨hmain, fun s hs => (hsubs s hs).2⟩⟩⟩

def rootRules (rule : Rule) : List Rule := if rule = .gate then Rule.gates else [rule]

theorem shaped_derives {rule : Rule} (h : Derives rule w t) : t.rule ∈ rootRules rule ∧ t.WellShaped := by
  have only (hne : rule ≠ .gate) (h : t.rule = rule ∧ t.WellShaped) : t.rule ∈ rootRules rule ∧ t.WellShaped :=
    ⟨by rw [rootRules, if_neg hne, h.1]; exact List.mem_singleton_self _, h.2⟩
  cases rule with
  | program => exact only (by decide) (shaped_program h)
  | circuit => exact only (by decide) (shaped_circuit h)
  | ioStatement => exact only (by decide) (shaped_ioStatement h)
  | arity => exact only (by decide) (shaped_arity h)
  | typeAssignment => exact only (by decide) (shaped_typeAssignment h)
  | gate => exact shaped_gate h
  | qgate => exact only (by decide) (shaped_qgate h)
  | qrot => exact only (by decide) (shaped_qrot h)
  | qinit => exact only (by decide) (shaped_qinit h)
  | comment => exact only (by decide) (shaped_comment h)
  | wire => exact only (by decide) (shaped_wire h)
  | subroutineCall => exact only (by decide) (shaped_call h)
  | intList => exact only (by decide) (shaped_intList h)
  | controlApp => exact only (by decide) (shaped_controlApp h)
  | subroutine => exact only (by decide) (shaped_subroutine h)
  | inversion | repetition | wireLabelList | signedList | terminal | unknown => exact absurd h id

end Grammar

end CircuitDesk
