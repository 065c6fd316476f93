import CircuitDesk.Viewer

namespace CircuitDesk.Viewer

variable {v : Viewer} {fs fs' : Files} {k : KeyPress} {m : Message}

inductive Effect where
  | edit
  | save
  | none
deriving DecidableEq, Repr

def effect (v : Viewer) : Message → Effect
  | .size _ _ => .none
  | .key k =>
    if k.name = "ctrl+c" then .none
    else match v.focus with
      | .diagram => if k.name = "ctrl+s" then .save else .none
      | .picker => .none
      | .source => if k.name = "tab" then .none else if k.name = "ctrl+s" then .save else .edit

/-- The viewer at the time of a save: in the source the text is read before. -/
def saved (v : Viewer) : Viewer :=
  match v.focus with
  | .source => { v with note := [] }.reparse
  | _ => { v with note := [] }

/-- A save that has something to write. -/
structure Offers (v : Viewer) (t : Bytes) : Prop where
  path : v.path ≠ []
  fault : v.fault = none
  program : ∃ p, v.program = some p ∧ p.program.text = t

theorem Offers.unique {t t' : Bytes} (h : v.Offers t) (h' : v.Offers t') : t = t' := by
  obtain ⟨p, hp, rfl⟩ := h.program
  obtain ⟨p', hp', rfl⟩ := h'.program
  rw [Option.some.inj (hp.symm.trans hp')]

def Fills (v : Viewer) (fs : Files) (t : Bytes) : Prop := v.Offers t ∧ ∃ fs', fs.write v.path t = .done fs'

theorem not_fills_of_write {t : Bytes} {w : Files.Write} (h : v.Offers t) (hwrite : fs.write v.path t = w)
    (hw : ∀ fs', w ≠ .done fs') (t' : Bytes) : ¬ v.Fills fs t' := by
  rintro ⟨h', fs', hdone⟩
  rw [h'.unique h, hwrite] at hdone
  exact hw fs' hdone

inductive Saves (v : Viewer) (fs : Files) : Viewer × Files → Prop
  | idle (note : Bytes) : (∀ t, ¬ v.Offers t) → Saves v fs ({ v with note := note }, fs)
  | refused {t : Bytes} {e : Files.Error} (note : Bytes) : v.Offers t → fs.write v.path t = .refused e →
      Saves v fs ({ v with note := note }, fs)
  | cutOff {t : Bytes} {fs' : Files} {e : Files.Error} (note : Bytes) : v.Offers t →
      fs.write v.path t = .cutOff fs' e → Saves v fs ({ v with note := note }, fs')
  | done {t : Bytes} {fs' : Files} (note : Bytes) : v.Offers t → fs.write v.path t = .done fs' →
      Saves v fs ({ v with editor := v.editor.setText t, lastSource := t, note := note }, fs')

theorem saves (v : Viewer) (fs : Files) : Saves v fs (v.save fs) := by
  unfold save
  split
  · next hpath => exact .idle _ fun t h => h.path hpath
  · next hpath =>
    split
    · next p hfault hp =>
      have hoffers : v.Offers p.program.text := ⟨hpath, hfault, p, hp, rfl⟩
      dsimp only
      cases hwrite : fs.write v.path p.program.text with
      | refused e => exact .refused _ hoffers hwrite
      | cutOff fs' e => exact .cutOff _ hoffers hwrite
      | done fs' => exact .done _ hoffers hwrite
    · next hnot =>
      refine .idle _ fun t h => ?_
      obtain ⟨p, hp, -⟩ := h.program
      exact hnot p h.fault hp

/-- `Pressed v fs k effect step` says where a key leads when there is no note. -/
inductive Pressed (v : Viewer) (fs : Files) (k : KeyPress) : Effect → Step → Prop
  | quit : Pressed v fs k .none ⟨v, fs, true⟩
  | diagram : v.focus = .diagram → k.name ≠ Bytes.ofString "ctrl+s" →
      Pressed v fs k .none ⟨v.diagramKey k.name, fs, false⟩
  | picker : v.focus = .picker → Pressed v fs k .none ⟨v.pickerKey k.name, fs, false⟩
  | leave : v.focus = .source → Pressed v fs k .none ⟨{ v with focus := .diagram }, fs, false⟩
  | save : v.focus ≠ .picker → Pressed v fs k .save (v.saved.saveStep fs)
  | edit : v.focus = .source → Pressed v fs k .edit ⟨v.editorKey k, fs, false⟩

theorem pressed (v : Viewer) (fs : Files) (k : KeyPress) :
    Pressed { v with note := [] } fs k (v.effect (.key k)) (v.press fs k) := by
  unfold press effect
  dsimp only
  by_cases hquit : k.name = Bytes.ofString "ctrl+c"
  · rw [if_pos hquit, if_pos hquit]
    exact .quit
  rw [if_neg hquit, if_neg hquit]
  cases v.focus with
  | diagram =>
    dsimp only
    by_cases hq : k.name = Bytes.ofString "q"
    · have hsave : k.name ≠ Bytes.ofString "ctrl+s" := by rw [hq]; decide
      rw [if_pos hq, if_neg hsave]
      exact .quit
    by_cases hsave : k.name = Bytes.ofString "ctrl+s"
    · rw [if_neg hq, if_pos hsave, if_pos hsave]
      exact .save (by simp)
    · rw [if_neg hq, if_neg hsave, if_neg hsave]
      exact .diagram rfl hsave
  | picker => exact .picker rfl
  | source =>
    dsimp only
    by_cases htab : k.name = Bytes.ofString "tab"
    · rw [if_pos htab, if_pos htab]
      exact .leave rfl
    by_cases hsave : k.name = Bytes.ofString "ctrl+s"
    · rw [if_neg htab, if_neg htab, if_pos hsave, if_pos hsave]
      exact .save (by simp)
    · rw [if_neg htab, if_neg htab, if_neg hsave, if_neg hsave]
      exact .edit rfl

theorem update_save (h : v.effect (.key k) = .save) (fs : Files) : v.update fs (.key k) = v.saved.saveStep fs := by
  have hpressed := pressed v fs k
  rw [h] at hpressed
  change v.press fs k = _
  generalize v.press fs k = step at hpressed ⊢
  cases hpressed
  rfl

theorem update_edit (h : v.effect (.key k) = .edit) (fs : Files) :
    ∃ e, v.update fs (.key k) = ⟨{ v with note := [], editor := e }.reparse, fs, false⟩ := by
  have hpressed := pressed v fs k
  rw [h] at hpressed
  change ∃ e, v.press fs k = _
  generalize v.press fs k = step at hpressed ⊢
  cases hpressed
  exact ⟨_, rfl⟩

/-- A save either fills the widget or leaves it alone. -/
theorem save_editor (v : Viewer) (fs : Files) :
    (∃ t, v.Fills fs t ∧ (v.save fs).1.editor = v.editor.setText t) ∨
      (∀ t, ¬ v.Fills fs t) ∧ (v.save fs).1.editor = v.editor := by
  have hsaves := saves v fs
  generalize v.save fs = r at hsaves ⊢
  cases hsaves with
  | idle note hnot => exact .inr ⟨fun t h => hnot t h.1, rfl⟩
  | refused note hoffers hwrite => exact .inr ⟨not_fills_of_write hoffers hwrite (by simp), rfl⟩
  | cutOff note hoffers hwrite => exact .inr ⟨not_fills_of_write hoffers hwrite (by simp), rfl⟩
  | done note hoffers hwrite => exact .inl ⟨_, ⟨hoffers, _, hwrite⟩, rfl⟩

theorem reparse_editor (v : Viewer) : v.reparse.editor = v.editor := by
  unfold reparse accept
  dsimp only
  split
  · rfl
  · split <;> rfl

theorem saved_editor (v : Viewer) : v.saved.editor = v.editor := by
  unfold saved
  split
  · exact reparse_editor _
  · rfl

/-- Nothing that belongs to the source has changed. -/
structure SameSource (v u : Viewer) : Prop where
  reading : u.reading = v.reading
  text : u.editor.text = v.editor.text
  last : u.lastSource = v.lastSource
  program : u.program = v.program
  fault : u.fault = v.fault

namespace SameSource

variable {v u : Viewer}

theorem ite {c : Prop} [Decidable c] {u' : Viewer} (h : v.SameSource u) (h' : v.SameSource u') :
    v.SameSource (if c then u else u') := by
  split
  · exact h
  · exact h'

theorem select (h : v.SameSource u) (i : Int) : v.SameSource (u.select i) := by
  unfold Viewer.select
  exact ite h ⟨h.reading, h.text, h.last, h.program, h.fault⟩

theorem openPicker (h : v.SameSource u) : v.SameSource u.openPicker := by
  unfold Viewer.openPicker
  exact ite h ⟨h.reading, h.text, h.last, h.program, h.fault⟩

theorem diagramKey (h : v.SameSource u) (name : Bytes) : v.SameSource (u.diagramKey name) := by
  unfold Viewer.diagramKey
  refine ite ⟨h.reading, h.text, h.last, h.program, h.fault⟩ ?_
  refine ite (h.select _) ?_
  refine ite (h.select _) ?_
  refine ite h.openPicker ?_
  repeat' refine ite ⟨h.reading, h.text, h.last, h.program, h.fault⟩ ?_
  exact h

theorem pickerKey (h : v.SameSource u) (name : Bytes) : v.SameSource (u.pickerKey name) := by
  have hselect := h.select u.pickerItem
  unfold Viewer.pickerKey
  refine ite ⟨h.reading, h.text, h.last, h.program, h.fault⟩ ?_
  refine ite ⟨h.reading, h.text, h.last, h.program, h.fault⟩ ?_
  refine ite (ite ⟨h.reading, h.text, h.last, h.program, h.fault⟩ h) ?_
  exact ite ⟨hselect.reading, hselect.text, hselect.last, hselect.program, hselect.fault⟩ h

end SameSource

theorem Pressed.sameSource {step : Step} (h : Pressed v fs k .none step) :
    v.SameSource step.viewer ∧ step.files = fs := by
  have hsame : v.SameSource v := ⟨rfl, rfl, rfl, rfl, rfl⟩
  cases h with
  | quit => exact ⟨hsame, rfl⟩
  | diagram => exact ⟨hsame.diagramKey _, rfl⟩
  | picker => exact ⟨hsame.pickerKey _, rfl⟩
  | leave => exact ⟨⟨rfl, rfl, rfl, rfl, rfl⟩, rfl⟩

theorem update_other (h : v.effect m = .none) (fs : Files) :
    v.SameSource (v.update fs m).viewer ∧ (v.update fs m).files = fs := by
  cases m with
  | size width height => exact ⟨⟨rfl, rfl, rfl, rfl, rfl⟩, rfl⟩
  | key k =>
    have hpressed := pressed v fs k
    rw [h] at hpressed
    obtain ⟨hsame, hfiles⟩ := hpressed.sameSource
    exact ⟨⟨hsame.reading, hsame.text, hsame.last, hsame.program, hsame.fault⟩, hfiles⟩

end CircuitDesk.Viewer
