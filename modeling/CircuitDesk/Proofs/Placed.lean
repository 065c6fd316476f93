import CircuitDesk.Proofs.Recheck
import CircuitDesk.Proofs.Shapes
import CircuitDesk.Source

namespace CircuitDesk

/-- The reading is not refused for a tree out of place: where it looks for a part there is one, and of a rule that it
has a case for. -/
def Placed {α : Type} (x : Checked α) : Prop :=
  ∀ e, x = .error e → ∀ found wanted, e.cause ≠ .misplaced found wanted

section

variable {α β : Type}

theorem placed_ok (a : α) : Placed (.ok a) := fun _ h => by cases h

theorem placed_error {e : SemanticFault} (h : ∀ found wanted, e.cause ≠ .misplaced found wanted) :
    Placed (.error e : Checked α) := fun _ he => by
  cases he
  exact h

theorem Placed.bind {x : Checked α} {f : α → Checked β} (hx : Placed x) (hf : ∀ a, x = .ok a → Placed (f a)) :
    Placed (x >>= f) := by
  intro e he
  rcases Tree.bind_eq_error.mp he with he | ⟨a, ha, he⟩
  · exact hx e he
  · exact hf a ha e he

theorem Placed.map {x : Checked α} (h : Placed x) (f : α → β) : Placed (f <$> x) := by
  cases x with
  | ok a => exact placed_ok (f a)
  | error e => exact placed_error (h e rfl)

theorem placed_mapM {read : α → Checked β} {as : List α} (h : ∀ a ∈ as, Placed (read a)) : Placed (as.mapM read) := by
  induction as with
  | nil => exact placed_ok []
  | cons a as ih =>
    obtain ⟨ha, has⟩ := List.forall_mem_cons.mp h
    rw [List.mapM_cons]
    exact ha.bind fun b _ => (ih has).bind fun bs _ => placed_ok _

end

namespace Tree

variable {t : Tree}

theorem placed_fault {α : Type} {tok : Token} {literal : Bytes} {cause : SemanticCause}
    (h : ∀ found wanted, cause ≠ .misplaced found wanted) : Placed (fault tok literal cause : Checked α) :=
  placed_error h

theorem placed_wireNumber (t : Token) : Placed (wireNumber t) := by
  rw [wireNumber]
  split
  · exact placed_fault (by simp)
  · split
    · exact placed_fault (by simp)
    · split
      · exact placed_ok _
      · exact placed_fault (by simp)

theorem placed_controlRef (t : Token) : Placed (controlRef t) := by
  rw [controlRef]
  split
  · exact placed_fault (by simp)
  · split
    · split
      · exact placed_ok _
      · exact placed_fault (by simp)
    · exact placed_fault (by simp)

theorem placed_toWireList (h : t.WellShaped) (hrule : t.rule = .intList) : Placed t.toWireList := by
  cases h.shape with
  | intList =>
    rw [toWireList, List.mapM_map]
    exact placed_mapM fun w _ => placed_wireNumber w
  | _ => cases hrule

theorem placed_controls {opening : Token} {refs : List Token} {more : List Tree} :
    Placed (toControl (.node .controlApp none (.node .signedList (some opening) (refs.map .leaf) :: more))) := by
  rw [toControl]
  split
  · exact placed_error (by simp)
  · rw [List.mapM_map]
    exact (placed_mapM fun r _ => placed_controlRef r).bind fun refs _ => placed_ok _

theorem placed_toControl (h : t.WellShaped) (hrule : t.rule = .controlApp) : Placed t.toControl := by
  cases h.shape with
  | uncontrolled => exact placed_ok _
  | noControl => exact placed_ok _
  | controls hrefs =>
    cases (h.part _ List.mem_cons_self).shape with
    | signedList => exact placed_controls
    | _ => cases hrefs
  | controlsOnly hrefs =>
    cases (h.part _ List.mem_cons_self).shape with
    | signedList => exact placed_controls
    | _ => cases hrefs
  | _ => cases hrule

theorem placed_toWireLabel (h : t.WellShaped) (hrule : t.rule = .wire) : Placed t.toWireLabel := by
  cases h.shape with
  | @wire wire label => exact (placed_wireNumber wire).bind fun w _ => placed_ok _
  | _ => cases hrule

theorem placed_toDeclaration (h : t.WellShaped) (hrule : t.rule = .typeAssignment) :
    Placed t.toDeclaration ∧ t.firstToken.isSome := by
  cases h.shape with
  | @typeAssignment wire type => exact ⟨(placed_wireNumber wire).bind fun w _ => placed_ok _, rfl⟩
  | _ => cases hrule

theorem placed_toDeclarations {list : Bytes} {seen : List Wire} {ts : List Tree} (h : ∀ t ∈ ts, t.WellShaped)
    (hrules : ∀ t ∈ ts, t.rule = .typeAssignment) : Placed (toDeclarations list seen ts) := by
  induction ts generalizing seen with
  | nil => exact placed_ok []
  | cons t ts ih =>
    obtain ⟨ht, hts⟩ := List.forall_mem_cons.mp h
    obtain ⟨hrule, hrules⟩ := List.forall_mem_cons.mp hrules
    obtain ⟨hread, hfirst⟩ := placed_toDeclaration ht hrule
    obtain ⟨first, hfirst⟩ := Option.isSome_iff_exists.mp hfirst
    refine hread.bind fun d _ => ?_
    rw [hfirst]
    split
    · exact placed_fault (by simp)
    · exact (ih hts hrules).bind fun later _ => placed_ok _

theorem placed_toArity (list : Bytes) (h : t.WellShaped) (hrule : t.rule = .arity) : Placed (t.toArity list) := by
  cases h.shape with
  | arity hne hitems => exact placed_toDeclarations h.part hitems
  | _ => cases hrule

theorem placed_toIoStatement (h : t.WellShaped) (hrule : t.rule = .ioStatement) : Placed t.toIoStatement := by
  cases h.shape with
  | ioStatement hword hlist => exact (placed_toArity _ (h.part _ (by simp)) hlist).bind fun ds _ => placed_ok _
  | _ => cases hrule

theorem placed_toRepetitions (h : t.WellShaped) (hrule : t.rule = .repetition) : Placed t.toRepetitions := by
  cases h.shape with
  | @repetition counts hkinds hlength =>
    match counts, hlength with
    | [], _ => exact placed_ok 1
    | [count], _ =>
      rw [List.map_singleton, toRepetitions]
      split
      · split
        · exact placed_fault (by simp)
        · exact placed_ok _
      · exact placed_fault (by simp)
  | _ => cases hrule

theorem placed_toGate (h : t.WellShaped) (hrule : t.rule ∈ Rule.gates) : Placed t.toGate := by
  cases h.shape with
  | @qgate opening name stars wire control hopening hname hstars hwire hcontrol =>
    rw [toGate]
    split
    · exact placed_fault (by simp)
    · exact (placed_wireNumber wire).bind fun w _ =>
        (placed_toControl (h.part control (by simp)) hcontrol).bind fun c _ => placed_ok _
  | @qrot opening name step stars wire =>
    rw [toGate]
    split
    · exact placed_fault (by simp)
    · split
      · exact placed_fault (by simp)
      · exact (placed_wireNumber wire).bind fun w _ => placed_ok _
  | @bareInit word wire => exact (placed_wireNumber wire).bind fun w _ => placed_ok _
  | @labelledInit word target hword htarget =>
    cases target with
    | leaf => cases htarget
    | node =>
      exact (placed_toWireLabel (h.part _ (by simp)) htarget).bind fun l _ => placed_ok _
  | @comment opening text labels hopening htext hlabels =>
    cases (h.part labels (by simp)).shape with
    | @wireLabelList ps =>
      simp only [toGate, labelParts, toWireLabels_flat]
      refine Placed.bind ?_ fun ls _ => placed_ok _
      exact placed_mapM fun p _ => (placed_wireNumber p.1).bind fun w _ => placed_ok _
    | _ => cases hlabels
  | @subroutineCall opening count name shape stars inputs outputs control hopening hcount hname hshape hstars hinputs
      houtputs hcontrol =>
    exact (placed_toRepetitions (h.part count (by simp)) hcount).bind fun n _ =>
      (placed_toWireList (h.part inputs (by simp)) hinputs).bind fun ws _ =>
        (placed_toWireList (h.part outputs (by simp)) houtputs).bind fun ws' _ =>
          (placed_toControl (h.part control (by simp)) hcontrol).bind fun c _ => placed_ok _
  | _ => simp [Rule.gates] at hrule

theorem placed_toCircuit (h : t.WellShaped) (hrule : t.rule = .circuit) : Placed t.toCircuit := by
  cases h.shape with
  | @circuit inputs gates outputs hinputs hgates houtputs =>
    simp only [toCircuit, List.cons_append, List.getLast?_concat, List.dropLast_concat]
    refine (placed_toIoStatement (h.part inputs (by simp)) hinputs).bind fun i _ =>
      (placed_toIoStatement (h.part outputs (by simp)) houtputs).bind fun o _ =>
        Placed.bind (placed_mapM fun g hg => ?_) fun gs _ => placed_ok _
    exact placed_toGate (h.part g (by simp [hg])) (hgates g hg)
  | _ => cases hrule

theorem placed_toSubroutine (h : t.WellShaped) (hrule : t.rule = .subroutine) :
    Placed t.toSubroutine ∧ t.nameToken?.isSome := by
  cases h.shape with
  | @subroutine opening name shape word body hopening hname hshape hword hbody =>
    exact ⟨(placed_toCircuit (h.part body (by simp)) hbody).bind fun c _ => placed_ok _, rfl⟩
  | _ => cases hrule

theorem placed_toSubroutines {seen : List Bytes} {ts : List Tree} (h : ∀ t ∈ ts, t.WellShaped)
    (hrules : ∀ t ∈ ts, t.rule = .subroutine) : Placed (toSubroutines seen ts) := by
  induction ts generalizing seen with
  | nil => exact placed_ok []
  | cons t ts ih =>
    obtain ⟨ht, hts⟩ := List.forall_mem_cons.mp h
    obtain ⟨hrule, hrules⟩ := List.forall_mem_cons.mp hrules
    obtain ⟨hread, hname⟩ := placed_toSubroutine ht hrule
    obtain ⟨name, hname⟩ := Option.isSome_iff_exists.mp hname
    refine hread.bind fun s _ => ?_
    rw [hname]
    split
    · exact placed_fault (by simp)
    · exact (ih hts hrules).bind fun later _ => placed_ok _

theorem placed_toProgram (h : t.WellShaped) (hrule : t.rule = .program) : Placed t.toProgram := by
  cases h.shape with
  | @program main subs hmain hsubs =>
    refine (placed_toCircuit (h.part main (by simp)) hmain).bind fun c _ => ?_
    exact (placed_toSubroutines (fun s hs => h.part s (by simp [hs])) hsubs).bind fun ss _ => placed_ok _
  | _ => cases hrule

end Tree

theorem Program.Built.placed_check {p : Program} (h : p.Built) : Placed p.check := by
  rw [h.check_eq]
  cases p.namelessCall? with
  | none => exact placed_ok ()
  | some c => exact placed_error (by simp [namelessFault])

theorem placed_checkedProgram {t : Tree} (strict : Bool) (h : t.WellShaped) (hrule : t.rule = .program) :
    Placed (Source.checkedProgram strict t) := by
  refine (Tree.placed_toProgram h hrule).bind fun p hp => ?_
  refine Placed.bind ((Tree.toProgram_built hp).placed_check.bind fun _ _ => placed_ok _) fun r _ => ?_
  split
  · exact placed_error (by simp)
  · exact placed_ok _

theorem placed_valueOfTree {t : Tree} {rule : Rule} (strict : Bool) (h : t.WellShaped)
    (hrule : t.rule ∈ Grammar.rootRules rule) (hentry : rule.isEntry) : Placed (Source.valueOfTree rule strict t) := by
  have only (hne : rule ≠ .gate) : t.rule = rule := by simpa [Grammar.rootRules, hne] using hrule
  have gate (hgate : rule ∈ .gate :: Rule.gates) : Placed (RuleValue.gate <$> t.toGate) := by
    refine (Tree.placed_toGate h ?_).map _
    rcases List.mem_cons.mp hgate with rfl | hgate
    · exact hrule
    · rwa [only (by rintro rfl; revert hgate; decide)]
  cases rule with
  | program => exact (placed_checkedProgram strict h (only (by decide))).map _
  | circuit => exact (Tree.placed_toCircuit h (only (by decide))).map _
  | ioStatement => exact (Tree.placed_toIoStatement h (only (by decide))).map _
  | arity => exact (Tree.placed_toArity _ h (only (by decide))).map _
  | typeAssignment => exact (Tree.placed_toDeclaration h (only (by decide))).1.map _
  | gate | qgate | qrot | qinit | comment | subroutineCall => exact gate (by decide)
  | wire => exact (Tree.placed_toWireLabel h (only (by decide))).map _
  | intList => exact (Tree.placed_toWireList h (only (by decide))).map _
  | controlApp => exact (Tree.placed_toControl h (only (by decide))).map _
  | subroutine => exact (Tree.placed_toSubroutine h (only (by decide))).1.map _
  | inversion | repetition | wireLabelList | signedList | terminal | unknown =>
    simp [Rule.isEntry, Rule.entries] at hentry

end CircuitDesk
