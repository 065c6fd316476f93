import CircuitDesk.Proofs.Messages
import CircuitDesk.Viewer.View

namespace CircuitDesk.Viewer

variable {v : Viewer} {fs : Files} {p : CheckedProgram}

def SelectionFits (v : Viewer) : Prop :=
  v.program = none ∧ v.selected = 0 ∨ ∃ p, v.program = some p ∧ v.selected ≤ p.program.subroutines.length

structure InRange (v : Viewer) : Prop where
  selection : v.SelectionFits
  picker : v.focus = .picker → v.program.isSome ∧ v.pickerItem < v.circuitCount
  known : v.program.isSome ∨ v.fault.isSome

theorem circuitCount_of_program (hp : v.program = some p) : v.circuitCount = p.program.subroutines.length + 1 := by
  rw [circuitCount, hp]

theorem circuitCount_eq_zero : v.circuitCount = 0 ↔ v.program = none := by
  unfold circuitCount
  split <;> simp_all

theorem SelectionFits.lt_circuitCount (h : v.SelectionFits) (hcount : v.circuitCount ≠ 0) :
    v.selected < v.circuitCount := by
  rcases h with ⟨hnone, -⟩ | ⟨p, hp, hle⟩
  · exact absurd (circuitCount_eq_zero.mpr hnone) hcount
  · rw [circuitCount_of_program hp]
    exact Nat.lt_succ_of_le hle

theorem selectionFits_of_lt (h : v.selected < v.circuitCount) : v.SelectionFits := by
  cases hp : v.program with
  | none =>
    rw [circuitCount_eq_zero.mpr hp] at h
    exact absurd h (Nat.not_lt_zero _)
  | some p =>
    rw [circuitCount_of_program hp] at h
    exact .inr ⟨p, hp, Nat.le_of_lt_succ h⟩

theorem select_selected (i : Int) (hcount : v.circuitCount ≠ 0) :
    (v.select i).selected < (v.select i).circuitCount := by
  have hpos : (0 : Int) < v.circuitCount := by omega
  have hnonneg := Int.emod_nonneg i (Int.ne_of_gt hpos)
  have hlt := Int.emod_lt_of_pos i hpos
  rw [select, if_neg hcount]
  change (i % v.circuitCount).toNat < v.circuitCount
  omega

theorem select_of_lt {i : Nat} (hi : i < v.circuitCount) : (v.select i).selected = i := by
  rw [select, if_neg (by omega)]
  change ((i : Int) % v.circuitCount).toNat = i
  rw [Int.emod_eq_of_lt (by omega) (by omega), Int.toNat_natCast]

theorem SelectionFits.select (h : v.SelectionFits) (i : Int) : (v.select i).SelectionFits := by
  by_cases hcount : v.circuitCount = 0
  · rwa [Viewer.select, if_pos hcount]
  · exact selectionFits_of_lt (select_selected i hcount)

@[simp] theorem select_program (i : Int) : (v.select i).program = v.program := by
  unfold select
  split <;> rfl

@[simp] theorem select_fault (i : Int) : (v.select i).fault = v.fault := by
  unfold select
  split <;> rfl

@[simp] theorem select_focus (i : Int) : (v.select i).focus = v.focus := by
  unfold select
  split <;> rfl

theorem inRange_of_focus (hfocus : v.focus ≠ .picker) (hselection : v.SelectionFits)
    (hknown : v.program.isSome ∨ v.fault.isSome) : v.InRange :=
  ⟨hselection, fun h => absurd h hfocus, hknown⟩

theorem SelectionFits.accept (h : v.SelectionFits) (hfocus : v.focus ≠ .picker) (r : Except Fault CheckedProgram) :
    (v.accept r).InRange := by
  cases r with
  | error e => exact inRange_of_focus hfocus h (.inr rfl)
  | ok p => exact inRange_of_focus hfocus (.inr ⟨p, rfl, Nat.min_le_right _ _⟩) (.inl rfl)

theorem SelectionFits.reparse (h : v.SelectionFits) (hfocus : v.focus ≠ .picker) : v.reparse.InRange := by
  rw [Viewer.reparse]
  split
  · next hknown => exact inRange_of_focus hfocus h hknown.2
  · exact SelectionFits.accept (v := { v with lastSource := v.editor.text }) h hfocus _

theorem reparse_known (v : Viewer) : v.reparse.program.isSome ∨ v.reparse.fault.isSome := by
  rw [reparse]
  split
  · next hknown => exact hknown.2
  · cases Source.parse v.reading v.editor.text with
    | error e => exact .inr rfl
    | ok p => exact .inl rfl

theorem exists_program (hknown : v.program.isSome ∨ v.fault.isSome) (hfault : v.fault = none) :
    ∃ p, v.program = some p := by
  rw [hfault] at hknown
  exact Option.isSome_iff_exists.mp (hknown.resolve_right (by simp))

theorem SelectionFits.edit (h : v.SelectionFits) (hfocus : v.focus ≠ .picker) (e : Editor) :
    { v with editor := e }.reparse.InRange :=
  SelectionFits.reparse (v := { v with editor := e }) h hfocus

theorem inRange_new (path source : Bytes) (s : Settings) : (new path source s).InRange :=
  SelectionFits.reparse (.inl ⟨rfl, rfl⟩) (by simp)

namespace InRange

theorem ite {c : Prop} [Decidable c] {u : Viewer} (hv : v.InRange) (hu : u.InRange) : (if c then v else u).InRange := by
  split
  · exact hv
  · exact hu

theorem resize (h : v.InRange) (width height : Int) : (v.resize width height).InRange :=
  ⟨h.selection, h.picker, h.known⟩

theorem refocus (h : v.InRange) {f : Focus} (hf : f ≠ .picker) : { v with focus := f }.InRange :=
  ⟨h.selection, fun hpicker => absurd hpicker hf, h.known⟩

theorem select (h : v.InRange) (hfocus : v.focus ≠ .picker) (i : Int) : (v.select i).InRange := by
  refine inRange_of_focus ?_ (h.selection.select i) ?_
  · rwa [select_focus]
  · rw [select_program, select_fault]
    exact h.known

theorem openPicker (h : v.InRange) : v.openPicker.InRange := by
  unfold Viewer.openPicker
  split
  · exact h
  · next hcount =>
    refine ⟨h.selection, fun _ => ⟨?_, h.selection.lt_circuitCount hcount⟩, h.known⟩
    exact Option.isSome_iff_ne_none.mpr fun hnone => hcount (circuitCount_eq_zero.mpr hnone)

theorem diagramKey (h : v.InRange) (hfocus : v.focus = .diagram) (name : Bytes) : (v.diagramKey name).InRange := by
  have hnot : v.focus ≠ .picker := by simp [hfocus]
  unfold Viewer.diagramKey
  refine ite (h.refocus (by simp)) ?_
  refine ite (h.select hnot _) ?_
  refine ite (h.select hnot _) ?_
  refine ite h.openPicker ?_
  -- the other keys move the diagram only
  repeat' refine ite ⟨h.selection, h.picker, h.known⟩ ?_
  exact h

theorem pickerKey (h : v.InRange) (hfocus : v.focus = .picker) (name : Bytes) : (v.pickerKey name).InRange := by
  obtain ⟨hprogram, hitem⟩ := h.picker hfocus
  unfold Viewer.pickerKey
  refine ite (h.refocus (by simp)) ?_
  refine ite ⟨h.selection, fun _ => ⟨hprogram, Nat.lt_of_le_of_lt (Nat.sub_le _ _) hitem⟩, h.known⟩ ?_
  refine ite ?_ ?_
  · split
    · next hnext => exact ⟨h.selection, fun _ => ⟨hprogram, hnext⟩, h.known⟩
    · exact h
  refine ite (inRange_of_focus (by simp) (h.selection.select v.pickerItem) ?_) h
  simpa using h.known

theorem save (h : v.InRange) (fs : Files) : (v.save fs).1.InRange := by
  have hsaves := saves v fs
  generalize v.save fs = r at hsaves ⊢
  cases hsaves <;> exact ⟨h.selection, h.picker, h.known⟩

theorem quiet (h : v.InRange) : { v with note := [] }.InRange := ⟨h.selection, h.picker, h.known⟩

theorem saved (h : v.InRange) : v.saved.InRange := by
  unfold Viewer.saved
  split
  · next hfocus => exact h.quiet.selection.reparse (by simp [hfocus])
  · exact h.quiet

theorem pressed (h : v.InRange) {k : KeyPress} {e : Effect} {step : Step} (hpressed : Pressed v fs k e step) :
    step.viewer.InRange := by
  cases hpressed with
  | quit => exact h
  | diagram hfocus => exact h.diagramKey hfocus k.name
  | picker hfocus => exact h.pickerKey hfocus k.name
  | leave => exact h.refocus (by simp)
  | save => exact h.saved.save fs
  | edit hfocus => exact h.selection.edit (by simp [hfocus]) _

theorem update (h : v.InRange) (fs : Files) (m : Message) : (v.update fs m).viewer.InRange := by
  cases m with
  | key k => exact h.quiet.pressed (Viewer.pressed v fs k)
  | size width height => exact h.resize width height

end InRange

inductive Leads (v : Viewer) : Message → Viewer → Prop
  | update (fs : Files) (m : Message) : Leads v m (v.update fs m).viewer
  | edit (k : KeyPress) (e : Editor) : v.focus = .source →
      k.name ≠ Bytes.ofString "ctrl+c" → k.name ≠ Bytes.ofString "tab" → k.name ≠ Bytes.ofString "ctrl+s" →
      Leads v (.key k) { v with note := [], editor := e }.reparse

inductive Runs (v : Viewer) : List Message → Viewer → Prop
  | start : Runs v [] v
  | step {ms u m u'} : Runs v ms u → Leads u m u' → Runs v (ms ++ [m]) u'

theorem InRange.leads (h : v.InRange) {m : Message} {u : Viewer} (hstep : v.Leads m u) : u.InRange := by
  cases hstep with
  | update fs m => exact h.update fs m
  | edit k e hfocus =>
    exact SelectionFits.edit (v := { v with note := [] }) h.selection (by simp [hfocus]) e

theorem InRange.runs (h : v.InRange) {ms : List Message} {u : Viewer} (hruns : v.Runs ms u) : u.InRange := by
  induction hruns with
  | start => exact h
  | step _ hstep ih => exact ih.leads hstep

theorem Runs.before {m : Message} {ms : List Message} {u u' : Viewer} (hstep : v.Leads m u) (hruns : u.Runs ms u') :
    v.Runs (m :: ms) u' := by
  induction hruns with
  | start => exact .step .start hstep
  | step _ hlast ih => exact .step ih hlast

theorem runs_run (v : Viewer) (fs : Files) (ms : List Message) : v.Runs ms (v.run fs ms).1 := by
  induction ms generalizing v fs with
  | nil => exact .start
  | cons m ms ih => exact .before (.update fs m) (ih _ _)

/-- All that keys and panels look up in the program is there: the subroutine that is selected, the item that the picker
enters and the program that is saved. -/
structure FindsAll (v : Viewer) : Prop where
  shown : v.selected ≠ 0 → ∃ p s, v.program = some p ∧ p.program.subroutines[v.selected - 1]? = some s ∧
    v.selectedName = s.name ∧ (v.selectedCircuit p.program).1 = s.circuit
  entered : v.focus = .picker → ∀ fs k, k.name = Bytes.ofString "enter" →
    (v.update fs (.key k)).viewer.selected = v.pickerItem
  saved : v.fault = none → ∃ p, v.program = some p
  savedAnew : v.reparse.fault = none → ∃ p, v.reparse.program = some p

theorem press_enter {k : KeyPress} (hfocus : v.focus = .picker) (hk : k.name = Bytes.ofString "enter") (fs : Files) :
    (v.press fs k).viewer = { { v with note := [] }.select v.pickerItem with focus := .diagram } := by
  unfold press
  rw [hk]
  dsimp only
  rw [if_neg (by decide), hfocus]
  rfl

theorem InRange.findsAll (h : v.InRange) : v.FindsAll := by
  refine ⟨fun hselected => ?_, fun hfocus fs k hk => ?_, exists_program h.known, exists_program (reparse_known v)⟩
  · rcases h.selection with ⟨-, hzero⟩ | ⟨p, hp, hle⟩
    · exact absurd hzero hselected
    · have hlt : v.selected - 1 < p.program.subroutines.length := by omega
      have hs : v.selectedSubroutine? = some p.program.subroutines[v.selected - 1] := by
        rw [selectedSubroutine?, if_neg hselected, subroutines, hp]
        exact List.getElem?_eq_getElem hlt
      refine ⟨p, _, hp, List.getElem?_eq_getElem hlt, ?_, ?_⟩
      · rw [selectedName, hs]
        rfl
      · rw [selectedCircuit, hs]
  · change (v.press fs k).viewer.selected = v.pickerItem
    rw [press_enter hfocus hk]
    exact select_of_lt (v := { v with note := [] }) (h.picker hfocus).2

theorem inRange_of_runs (path source : Bytes) (s : Settings) (ms : List Message) (v : Viewer)
    (h : (new path source s).Runs ms v) : v.InRange ∧ v.FindsAll := by
  have hv := (inRange_new path source s).runs h
  exact ⟨hv, hv.findsAll⟩

def oneSubroutine : Bytes :=
  Bytes.unlines ["Inputs: 0:Qbit", "Outputs: 0:Qbit", "Subroutine: \"s\"", "Shape: \"\"", "Controllable: no",
    "Inputs: 0:Qbit", "Outputs: 0:Qbit"]

def editing : Viewer :=
  ((new "pair" oneSubroutine .standard).run (.empty []) [.key (.ofText "]"), .key (.named "tab")]).1

def shortened : Viewer :=
  { editing with note := [], editor := editing.editor.setText "Inputs: 0:Qbit\nOutputs: 0:Qbit" }.reparse

theorem inRange_of_shortened :
    editing.selected = 1 ∧ shortened.selected = 0 ∧
      (new "pair" oneSubroutine .standard).Runs [.key (.ofText "]"), .key (.named "tab"), .key (.ofText "x")] shortened ∧
      shortened.InRange ∧ shortened.FindsAll := by
  have hrun : editing.focus = .source ∧ editing.selected = 1 ∧ shortened.selected = 0 := by decide +kernel
  obtain ⟨hfocus, hbefore, hafter⟩ := hrun
  have hruns : (new "pair" oneSubroutine .standard).Runs
      [.key (.ofText "]"), .key (.named "tab"), .key (.ofText "x")] shortened :=
    .step (runs_run _ _ _) (.edit (.ofText "x") _ hfocus (by decide) (by decide) (by decide))
  exact ⟨hbefore, hafter, hruns, inRange_of_runs _ _ _ _ _ hruns⟩

end CircuitDesk.Viewer
