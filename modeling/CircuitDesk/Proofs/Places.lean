import CircuitDesk.Proofs.RoundTrip

/-!
What the places of tokens are for. The value of a tree and the reason for which it is refused depend only on the kinds
and texts of its tokens; places go into faults and reports and nowhere else.
-/
namespace CircuitDesk

def Token.unplaced (t : Token) : Token := { t with pos := .unplaced }

def SemanticFault.unplaced (e : SemanticFault) : SemanticFault := { e with pos := .unplaced }

def Checked.unplaced {α : Type} (r : Checked α) : Checked α := r.mapError SemanticFault.unplaced

namespace Tree

mutual

def unplaced : Tree → Tree
  | leaf t => leaf t.unplaced
  | node r opening ts => node r (opening.map Token.unplaced) (unplacedOf ts)

def unplacedOf : List Tree → List Tree
  | [] => []
  | t :: ts => unplaced t :: unplacedOf ts

end

theorem unplacedOf_eq (ts : List Tree) : unplacedOf ts = ts.map unplaced := by
  induction ts with
  | nil => rfl
  | cons t ts ih => rw [unplacedOf, ih, List.map_cons]

mutual

theorem text_unplaced : ∀ t : Tree, t.unplaced.text = t.text
  | leaf _ => by simp [unplaced, text, Token.unplaced]
  | node r o ts => by simp [unplaced, text, textOf_unplaced ts]

theorem textOf_unplaced : ∀ ts : List Tree, textOf (unplacedOf ts) = textOf ts
  | [] => rfl
  | t :: ts => by simp [unplacedOf, textOf, text_unplaced t, textOf_unplaced ts]

end

mutual

theorem firstToken_unplaced : ∀ t : Tree, t.unplaced.firstToken = t.firstToken.map Token.unplaced
  | leaf _ => by simp [unplaced, firstToken]
  | node _ (some _) _ => by simp [unplaced, firstToken]
  | node _ none ts => by simp [unplaced, firstToken, firstTokenOf_unplaced ts]

theorem firstTokenOf_unplaced : ∀ ts : List Tree, firstTokenOf (unplacedOf ts) = (firstTokenOf ts).map Token.unplaced
  | [] => rfl
  | t :: ts => by
    simp only [unplacedOf, firstTokenOf, firstToken_unplaced t, firstTokenOf_unplaced ts]
    cases t.firstToken <;> rfl

end

theorem pos_unplaced (t : Tree) : t.unplaced.pos = .unplaced := by
  rw [pos, firstToken_unplaced]
  cases t.firstToken <;> rfl

theorem rule_unplaced (t : Tree) : t.unplaced.rule = t.rule := by
  cases t <;> simp [unplaced, rule]

theorem isInverted_unplaced (t : Tree) : t.unplaced.isInverted = t.isInverted := by
  cases t <;> simp [unplaced, unplacedOf_eq, isInverted, parts]

theorem unplaced_eq_leaf {t : Tree} {u : Token} : t.unplaced = .leaf u ↔ ∃ u', t = .leaf u' ∧ u'.unplaced = u := by
  cases t <;> simp [unplaced]

theorem unplaced_eq_node {t : Tree} {r : Rule} {opening : Option Token} {ts : List Tree} :
    t.unplaced = .node r opening ts ↔
      ∃ opening' ts', t = .node r opening' ts' ∧ opening'.map Token.unplaced = opening ∧ ts'.map unplaced = ts := by
  cases t <;> simp [unplaced, unplacedOf_eq, and_assoc]

theorem refuse_unplaced {α : Type} (wanted : Rule) (t : Tree) :
    (refuse wanted t.unplaced : Checked α) = Checked.unplaced (refuse wanted t) := by
  rw [refuse, pos_unplaced, rule_unplaced]
  rfl

theorem bind_unplaced {α β : Type} {r r' : Checked α} {f f' : α → Checked β} (hr : r' = r.unplaced)
    (hf : ∀ a, f' a = (f a).unplaced) : (r' >>= f') = Checked.unplaced (r >>= f) := by
  subst hr
  cases r with
  | error e => rfl
  | ok a => exact hf a

theorem mapM_unplaced {α : Type} {f : Tree → Checked α} (hf : ∀ t, f t.unplaced = (f t).unplaced) (ts : List Tree) :
    (ts.map unplaced).mapM f = Checked.unplaced (ts.mapM f) := by
  induction ts with
  | nil => rfl
  | cons t ts ih =>
    rw [List.map_cons, List.mapM_cons, List.mapM_cons]
    exact bind_unplaced (hf t) fun a => bind_unplaced ih fun as => rfl

theorem wireNumber_unplaced (t : Token) : wireNumber t.unplaced = (wireNumber t).unplaced := by
  have htext : t.unplaced.text = t.text := rfl
  simp only [wireNumber, htext]
  split
  · rfl
  · split
    · rfl
    · split <;> rfl

theorem controlRef_unplaced (t : Token) : controlRef t.unplaced = (controlRef t).unplaced := by
  have htext : t.unplaced.text = t.text := rfl
  simp only [controlRef, htext]
  split
  · rfl
  · split
    · split <;> rfl
    · rfl

theorem leafWire_unplaced : ∀ t : Tree, leafWire t.unplaced = (leafWire t).unplaced
  | leaf t => by
    rw [unplaced]
    exact wireNumber_unplaced t
  | node r opening ts => refuse_unplaced .terminal (node r opening ts)

theorem leafControlRef_unplaced : ∀ t : Tree, leafControlRef t.unplaced = (leafControlRef t).unplaced
  | leaf t => by
    rw [unplaced]
    exact controlRef_unplaced t
  | node r opening ts => refuse_unplaced .terminal (node r opening ts)

theorem toWireList_unplaced (t : Tree) : toWireList t.unplaced = (toWireList t).unplaced := by
  fun_cases toWireList t with
  | case1 opening parts =>
    rw [unplaced, unplacedOf_eq, toWireList]
    exact mapM_unplaced leafWire_unplaced parts
  | case2 t h =>
    rw [toWireList.eq_2, refuse_unplaced]
    intro opening parts h'
    obtain ⟨_, _, rfl, -⟩ := unplaced_eq_node.mp h'
    exact h _ _ rfl

theorem toControl_unplaced (t : Tree) : toControl t.unplaced = (toControl t).unplaced := by
  fun_cases toControl t with
  | case1 opening =>
    simp only [unplaced, unplacedOf, toControl]
    rfl
  | case2 opening token =>
    simp only [unplaced, unplacedOf, toControl]
    rfl
  | case3 opening word refs more hempty whole =>
    have hpos := pos_unplaced whole
    simp only [whole, unplaced, unplacedOf] at hpos
    simp only [unplaced, unplacedOf, toControl, hpos]
    rw [if_pos (by rwa [unplacedOf_eq, List.isEmpty_map])]
    rfl
  | case4 opening word refs more hempty =>
    simp only [unplaced, unplacedOf, toControl]
    rw [if_neg (by rwa [unplacedOf_eq, List.isEmpty_map]), unplacedOf_eq, unplacedOf_eq, List.isEmpty_map]
    exact bind_unplaced (mapM_unplaced leafControlRef_unplaced refs) fun _ => rfl
  | case5 t h₁ h₂ h₃ =>
    rw [toControl.eq_4, refuse_unplaced]
    all_goals
      intros
      rename_i h
      simp only [unplaced_eq_node, unplaced_eq_leaf, List.map_eq_cons_iff, List.map_eq_nil_iff] at h
    · obtain ⟨_, _, rfl, -, rfl⟩ := h
      exact h₁ _ rfl
    · obtain ⟨_, _, rfl, -, _, _, rfl, ⟨_, rfl, -⟩, rfl⟩ := h
      exact h₂ _ _ rfl
    · obtain ⟨_, _, rfl, -, _, _, rfl, ⟨_, _, rfl, -⟩, -⟩ := h
      exact h₃ _ _ _ _ rfl

theorem toWireLabel_unplaced (t : Tree) : toWireLabel t.unplaced = (toWireLabel t).unplaced := by
  fun_cases toWireLabel t with
  | case1 opening w l =>
    simp only [unplaced, unplacedOf, toWireLabel]
    exact bind_unplaced (wireNumber_unplaced w) fun _ => rfl
  | case2 t h =>
    rw [toWireLabel.eq_2, refuse_unplaced]
    intro opening w l h'
    simp only [unplaced_eq_node, unplaced_eq_leaf, List.map_eq_cons_iff, List.map_eq_nil_iff] at h'
    obtain ⟨_, _, rfl, -, _, _, rfl, ⟨_, rfl, -⟩, _, _, rfl, ⟨_, rfl, -⟩, rfl⟩ := h'
    exact h _ _ _ rfl

theorem toWireLabels_unplaced (ts : List Tree) :
    toWireLabels (ts.map unplaced) = Checked.unplaced (toWireLabels ts) := by
  fun_induction toWireLabels ts with
  | case1 => rfl
  | case2 w l more ih =>
    simp only [List.map_cons, unplaced, toWireLabels]
    exact bind_unplaced (wireNumber_unplaced w) fun _ => bind_unplaced ih fun _ => rfl
  | case3 t tail h =>
    rw [List.map_cons, toWireLabels.eq_3, refuse_unplaced]
    intro w l more ht htail
    simp only [unplaced_eq_leaf, List.map_eq_cons_iff] at ht htail
    obtain ⟨_, rfl, -⟩ := ht
    obtain ⟨_, _, rfl, ⟨_, rfl, -⟩, -⟩ := htail
    exact h _ _ _ rfl rfl

theorem toDeclaration_unplaced (t : Tree) : toDeclaration t.unplaced = (toDeclaration t).unplaced := by
  fun_cases toDeclaration t with
  | case1 opening w type =>
    simp only [unplaced, unplacedOf, toDeclaration]
    exact bind_unplaced (wireNumber_unplaced w) fun _ => rfl
  | case2 t h =>
    rw [toDeclaration.eq_2, refuse_unplaced]
    intro opening w type h'
    simp only [unplaced_eq_node, unplaced_eq_leaf, List.map_eq_cons_iff, List.map_eq_nil_iff] at h'
    obtain ⟨_, _, rfl, -, _, _, rfl, ⟨_, rfl, -⟩, _, _, rfl, ⟨_, rfl, -⟩, rfl⟩ := h'
    exact h _ _ _ rfl

theorem toDeclarations_unplaced (list : Bytes) (seen : List Wire) (ts : List Tree) :
    toDeclarations list seen (ts.map unplaced) = Checked.unplaced (toDeclarations list seen ts) := by
  induction ts generalizing seen with
  | nil => rfl
  | cons t ts ih =>
    refine bind_unplaced (toDeclaration_unplaced t) fun d => ?_
    split
    · rw [firstToken_unplaced]
      cases t.firstToken with
      | none => exact refuse_unplaced .typeAssignment t
      | some w => rfl
    · exact bind_unplaced (ih _) fun _ => rfl

theorem toArity_unplaced (list : Bytes) (t : Tree) : toArity list t.unplaced = (toArity list t).unplaced := by
  fun_cases toArity list t with
  | case1 opening parts =>
    rw [unplaced, unplacedOf_eq, toArity]
    exact toDeclarations_unplaced list [] parts
  | case2 t h =>
    rw [toArity.eq_2, refuse_unplaced]
    intro opening parts h'
    obtain ⟨_, _, rfl, -⟩ := unplaced_eq_node.mp h'
    exact h _ _ rfl

theorem toIoStatement_unplaced (t : Tree) : toIoStatement t.unplaced = (toIoStatement t).unplaced := by
  fun_cases toIoStatement t with
  | case1 opening word arity direction =>
    simp only [unplaced, unplacedOf, toIoStatement]
    exact bind_unplaced (toArity_unplaced _ arity) fun _ => rfl
  | case2 t h =>
    rw [toIoStatement.eq_2, refuse_unplaced]
    intro opening word arity h'
    simp only [unplaced_eq_node, unplaced_eq_leaf, List.map_eq_cons_iff, List.map_eq_nil_iff] at h'
    obtain ⟨_, _, rfl, -, _, _, rfl, ⟨_, rfl, -⟩, _, _, rfl, -, rfl⟩ := h'
    exact h _ _ _ rfl

theorem toRepetitions_unplaced (t : Tree) : toRepetitions t.unplaced = (toRepetitions t).unplaced := by
  fun_cases toRepetitions t with
  | case1 opening =>
    simp only [unplaced, unplacedOf, toRepetitions]
    rfl
  | case2 opening token n hnumber hn =>
    have htext : token.unplaced.text = token.text := rfl
    simp only [unplaced, unplacedOf, toRepetitions, htext, hnumber, if_pos hn]
    rfl
  | case3 opening token n hnumber hn =>
    have htext : token.unplaced.text = token.text := rfl
    simp only [unplaced, unplacedOf, toRepetitions, htext, hnumber, if_neg hn]
    rfl
  | case4 opening token hnumber =>
    have htext : token.unplaced.text = token.text := rfl
    simp only [unplaced, unplacedOf, toRepetitions, htext, hnumber]
    rfl
  | case5 t h₁ h₂ =>
    rw [toRepetitions.eq_3, refuse_unplaced]
    all_goals
      intros
      rename_i h
      simp only [unplaced_eq_node, unplaced_eq_leaf, List.map_eq_cons_iff, List.map_eq_nil_iff] at h
    · obtain ⟨_, _, rfl, -, rfl⟩ := h
      exact h₁ _ rfl
    · obtain ⟨_, _, rfl, -, _, _, rfl, ⟨_, rfl, -⟩, rfl⟩ := h
      exact h₂ _ _ rfl

theorem toGate_unplaced (t : Tree) : toGate t.unplaced = (toGate t).unplaced := by
  have unquoted_unplaced (t : Token) : unquoted t.unplaced = unquoted t := rfl
  have htext (t : Token) : t.unplaced.text = t.text := rfl
  fun_cases toGate t with
  | case1 opening name stars w control hop =>
    simp only [unplaced, unplacedOf, toGate, unquoted_unplaced, hop]
    rfl
  | case2 opening name stars w control op hop =>
    simp only [unplaced, unplacedOf, toGate, unquoted_unplaced, hop, isInverted_unplaced]
    exact bind_unplaced (wireNumber_unplaced w) fun _ => bind_unplaced (toControl_unplaced control) fun _ => rfl
  | case3 opening name step stars w hop =>
    simp only [unplaced, unplacedOf, toGate, unquoted_unplaced, hop]
    rfl
  | case4 opening name step stars w op hop hstep =>
    simp only [unplaced, unplacedOf, toGate, unquoted_unplaced, hop, htext, hstep]
    rfl
  | case5 opening name step stars w op hop timestep hstep =>
    simp only [unplaced, unplacedOf, toGate, unquoted_unplaced, hop, htext, hstep, isInverted_unplaced]
    exact bind_unplaced (wireNumber_unplaced w) fun _ => rfl
  | case6 opening word w =>
    simp only [unplaced, unplacedOf, toGate]
    exact bind_unplaced (wireNumber_unplaced w) fun _ => rfl
  | case7 opening word target hleaf =>
    simp only [unplaced, unplacedOf]
    rw [toGate.eq_4]
    · exact bind_unplaced (toWireLabel_unplaced target) fun _ => rfl
    · intro w h
      obtain ⟨_, rfl, -⟩ := unplaced_eq_leaf.mp h
      exact hleaf _ rfl
  | case8 opening text opening' labels =>
    simp only [unplaced, unplacedOf, toGate, unquoted_unplaced]
    rw [unplacedOf_eq]
    exact bind_unplaced (toWireLabels_unplaced labels) fun _ => rfl
  | case9 opening count name shape stars inputs outputs control =>
    simp only [unplaced, unplacedOf, toGate, unquoted_unplaced, isInverted_unplaced]
    exact bind_unplaced (toRepetitions_unplaced count) fun _ => bind_unplaced (toWireList_unplaced inputs) fun _ =>
      bind_unplaced (toWireList_unplaced outputs) fun _ => bind_unplaced (toControl_unplaced control) fun _ => rfl
  | case10 t h₁ h₂ h₃ h₄ h₅ h₆ =>
    rw [toGate.eq_7, refuse_unplaced]
    all_goals
      intros
      rename_i h
      simp only [unplaced_eq_node, unplaced_eq_leaf, List.map_eq_cons_iff, List.map_eq_nil_iff] at h
    · obtain ⟨_, _, rfl, -, _, _, rfl, ⟨_, rfl, -⟩, _, _, rfl, -, _, _, rfl, ⟨_, rfl, -⟩, _, _, rfl, -, rfl⟩ := h
      exact h₁ _ _ _ _ _ rfl
    · obtain ⟨_, _, rfl, -, _, _, rfl, ⟨_, rfl, -⟩, _, _, rfl, ⟨_, rfl, -⟩, _, _, rfl, -, _, _, rfl, ⟨_, rfl, -⟩,
        rfl⟩ := h
      exact h₂ _ _ _ _ _ rfl
    · obtain ⟨_, _, rfl, -, _, _, rfl, ⟨_, rfl, -⟩, _, _, rfl, ⟨_, rfl, -⟩, rfl⟩ := h
      exact h₃ _ _ _ rfl
    · obtain ⟨_, _, rfl, -, _, _, rfl, ⟨_, rfl, -⟩, _, _, rfl, -, rfl⟩ := h
      exact h₄ _ _ _ rfl
    · obtain ⟨_, _, rfl, -, _, _, rfl, ⟨_, rfl, -⟩, _, _, rfl, ⟨_, _, rfl, -⟩, rfl⟩ := h
      exact h₅ _ _ _ _ rfl
    · obtain ⟨_, _, rfl, -, _, _, rfl, -, _, _, rfl, ⟨_, rfl, -⟩, _, _, rfl, ⟨_, rfl, -⟩, _, _, rfl, -, _, _, rfl, -,
        _, _, rfl, -, _, _, rfl, -, rfl⟩ := h
      exact h₆ _ _ _ _ _ _ _ _ rfl

theorem toCircuit_unplaced (t : Tree) : toCircuit t.unplaced = (toCircuit t).unplaced := by
  fun_cases toCircuit t with
  | case1 opening first more hlast =>
    rw [← refuse_unplaced]
    simp only [unplaced, unplacedOf, toCircuit, unplacedOf_eq, List.getLast?_map, hlast, Option.map_none]
  | case2 opening first more last hlast =>
    simp only [unplaced, unplacedOf, toCircuit, unplacedOf_eq, List.getLast?_map, hlast, Option.map_some,
      ← List.map_dropLast]
    exact bind_unplaced (toIoStatement_unplaced first) fun _ => bind_unplaced (toIoStatement_unplaced last) fun _ =>
      bind_unplaced (mapM_unplaced toGate_unplaced _) fun _ => rfl
  | case3 t h =>
    rw [toCircuit.eq_2, refuse_unplaced]
    intro opening first more h'
    simp only [unplaced_eq_node, List.map_eq_cons_iff] at h'
    obtain ⟨_, _, rfl, -, _, _, rfl, -⟩ := h'
    exact h _ _ _ rfl

theorem toSubroutine_unplaced (t : Tree) : toSubroutine t.unplaced = (toSubroutine t).unplaced := by
  fun_cases toSubroutine t with
  | case1 opening name shape word body =>
    simp only [unplaced, unplacedOf, toSubroutine]
    exact bind_unplaced (toCircuit_unplaced body) fun _ => rfl
  | case2 t h =>
    rw [toSubroutine.eq_2, refuse_unplaced]
    intro opening name shape word body h'
    simp only [unplaced_eq_node, unplaced_eq_leaf, List.map_eq_cons_iff, List.map_eq_nil_iff] at h'
    obtain ⟨_, _, rfl, -, _, _, rfl, ⟨_, rfl, -⟩, _, _, rfl, ⟨_, rfl, -⟩, _, _, rfl, ⟨_, rfl, -⟩, _, _, rfl, -,
      rfl⟩ := h'
    exact h _ _ _ _ _ rfl

theorem nameToken?_unplaced (t : Tree) : nameToken? t.unplaced = (nameToken? t).map Token.unplaced := by
  fun_cases nameToken? t with
  | case1 opening name more =>
    simp only [unplaced, unplacedOf, nameToken?]
    rfl
  | case2 t h =>
    rw [nameToken?.eq_2, Option.map_none]
    intro opening name more h'
    simp only [unplaced_eq_node, unplaced_eq_leaf, List.map_eq_cons_iff] at h'
    obtain ⟨_, _, rfl, -, _, _, rfl, ⟨_, rfl, -⟩, -⟩ := h'
    exact h _ _ _ rfl

theorem toSubroutines_unplaced (seen : List Bytes) (ts : List Tree) :
    toSubroutines seen (ts.map unplaced) = Checked.unplaced (toSubroutines seen ts) := by
  induction ts generalizing seen with
  | nil => rfl
  | cons t ts ih =>
    refine bind_unplaced (toSubroutine_unplaced t) fun s => ?_
    split
    · rw [nameToken?_unplaced]
      cases t.nameToken? with
      | none => exact refuse_unplaced .subroutine t
      | some name => rfl
    · exact bind_unplaced (ih _) fun _ => rfl

theorem toProgram_unplaced (t : Tree) : toProgram t.unplaced = (toProgram t).unplaced := by
  fun_cases toProgram t with
  | case1 opening main subs =>
    simp only [unplaced, unplacedOf, toProgram, unplacedOf_eq]
    exact bind_unplaced (toCircuit_unplaced main) fun _ => bind_unplaced (toSubroutines_unplaced [] subs) fun _ => rfl
  | case2 t h =>
    rw [toProgram.eq_2, refuse_unplaced]
    intro opening main subs h'
    simp only [unplaced_eq_node, List.map_eq_cons_iff] at h'
    obtain ⟨_, _, rfl, -, _, _, rfl, -⟩ := h'
    exact h _ _ _ rfl

end Tree

namespace Checked

variable {α β : Type} {r r' : Checked α}

def Alike (r r' : Checked α) : Prop := r'.unplaced = r.unplaced

theorem alike_of_unplaced {f : Tree → Checked α} (hf : ∀ t, f t.unplaced = (f t).unplaced) {t t' : Tree}
    (h : t'.unplaced = t.unplaced) : Alike (f t) (f t') := by
  rw [Alike, ← hf, ← hf, h]

theorem Alike.cases (h : Alike r r') :
    (∃ a, r = .ok a ∧ r' = .ok a) ∨ ∃ e e', r = .error e ∧ r' = .error e' ∧ e'.unplaced = e.unplaced := by
  cases r <;> cases r'
  · exact .inr ⟨_, _, rfl, rfl, Except.error.inj h⟩
  · cases h
  · cases h
  · exact .inl ⟨_, rfl, congrArg Except.ok (Except.ok.inj h)⟩

theorem alike_error {e e' : SemanticFault} (h : e'.unplaced = e.unplaced) :
    Alike (.error e : Checked α) (.error e') := congrArg Except.error h

theorem Alike.map (h : Alike r r') (f : α → β) : Alike (f <$> r) (f <$> r') := by
  obtain ⟨a, rfl, rfl⟩ | ⟨e, e', rfl, rfl, he⟩ := h.cases
  · rfl
  · exact alike_error he

theorem Alike.bind {f f' : α → Checked β} (h : Alike r r') (hf : ∀ a, Alike (f a) (f' a)) :
    Alike (r >>= f) (r' >>= f') := by
  obtain ⟨a, rfl, rfl⟩ | ⟨e, e', rfl, rfl, he⟩ := h.cases
  · exact hf a
  · exact alike_error he

end Checked

def RuleValue.unplaced : RuleValue → RuleValue
  | .program p => .program ⟨p.program, p.report.unplaced⟩
  | v => v

theorem checkedProgram_alike {t t' : Tree} (h : t'.unplaced = t.unplaced) (strict : Bool) :
    Checked.Alike (RuleValue.unplaced <$> (.program <$> Source.checkedProgram strict t))
      (RuleValue.unplaced <$> (.program <$> Source.checkedProgram strict t')) := by
  simp only [Source.checkedProgram, Program.validate, map_bind, bind_assoc, pure_bind]
  refine (Checked.alike_of_unplaced Tree.toProgram_unplaced h).bind fun p => Checked.Alike.bind rfl fun _ => ?_
  -- the reports differ in the places of the calls, so their first calls in vain have one name
  have hreport : (p.report t'.callPositions).unplaced = (p.report t.callPositions).unplaced := by
    rw [report_unplaced, report_unplaced]
  have hvalue : RuleValue.unplaced (.program ⟨p, p.report t'.callPositions⟩) =
      RuleValue.unplaced (.program ⟨p, p.report t.callPositions⟩) := by
    rw [RuleValue.unplaced, RuleValue.unplaced, hreport]
  have hsites := congrArg Report.unresolved hreport
  simp only [Report.unplaced] at hsites
  have hok := congrArg (Except.ok (ε := SemanticFault)) hvalue
  cases hcase : (p.report t.callPositions).unresolved with
  | nil =>
    rw [hcase, List.map_nil, List.map_eq_nil_iff] at hsites
    rw [hsites]
    cases strict <;> exact hok
  | cons site sites =>
    rw [hcase] at hsites
    obtain ⟨site', sites', hcase', hsite, -⟩ := List.map_eq_cons_iff.mp hsites
    rw [hcase']
    cases strict with
    | false => exact hok
    | true =>
      have hname : site'.name = site.name := (congrArg CallSite.name hsite :)
      refine Checked.alike_error ?_
      rw [SemanticFault.unplaced, SemanticFault.unplaced, hname]

theorem valueOfTree_alike {t t' : Tree} (h : t'.unplaced = t.unplaced) (rule : Rule) (strict : Bool) :
    Checked.Alike (RuleValue.unplaced <$> Source.valueOfTree rule strict t)
      (RuleValue.unplaced <$> Source.valueOfTree rule strict t') := by
  have hread {α : Type} {f : Tree → Checked α} (hf : ∀ t : Tree, f t.unplaced = (f t).unplaced) (g : α → RuleValue) :
      Checked.Alike (RuleValue.unplaced <$> (g <$> f t)) (RuleValue.unplaced <$> (g <$> f t')) :=
    ((Checked.alike_of_unplaced hf h).map g).map RuleValue.unplaced
  cases rule with
  | program => exact checkedProgram_alike h strict
  | circuit => exact hread Tree.toCircuit_unplaced _
  | ioStatement => exact hread Tree.toIoStatement_unplaced _
  | arity => exact hread (Tree.toArity_unplaced "arity") _
  | typeAssignment => exact hread Tree.toDeclaration_unplaced _
  | wire => exact hread Tree.toWireLabel_unplaced _
  | intList => exact hread Tree.toWireList_unplaced _
  | controlApp => exact hread Tree.toControl_unplaced _
  | subroutine => exact hread Tree.toSubroutine_unplaced _
  | _ => exact hread Tree.toGate_unplaced _

end CircuitDesk
