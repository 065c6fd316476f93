import CircuitDesk.Proofs.Files
import CircuitDesk.Proofs.Holdable
import CircuitDesk.Proofs.Messages

/-!
Sessions of the viewer. The widget that holds the source is taken as its users know it: a key may turn the text into any
other that it can hold, and a text that it is given and can hold is what it then holds, however long it is. In every
such session the program and the fault belong to the text that is shown, and a save writes what that text was read as
or nothing.
-/
namespace CircuitDesk

open Editor (Holdable)

/-- Two readings of one program. The calls may stand at other places. -/
structure CheckedProgram.Same (p q : CheckedProgram) : Prop where
  main : p.program.main = q.program.main
  subroutines : p.program.subroutines = q.program.subroutines
  report : p.report.unplaced = q.report.unplaced

namespace CheckedProgram.Same

variable {p q r : CheckedProgram}

theorem refl (p : CheckedProgram) : p.Same p := ⟨rfl, rfl, rfl⟩

theorem symm (h : p.Same q) : q.Same p := ⟨h.main.symm, h.subroutines.symm, h.report.symm⟩

theorem trans (h : p.Same q) (h' : q.Same r) : p.Same r :=
  ⟨h.main.trans h'.main, h.subroutines.trans h'.subroutines, h.report.trans h'.report⟩

theorem text (h : p.Same q) : p.program.text = q.program.text := by
  rw [Program.text, Program.text, h.main, h.subroutines]

end CheckedProgram.Same

theorem parse_text_again {o : ReadOptions} {source : Bytes} {cp : CheckedProgram}
    (h : Source.parse o source = .ok cp) : ∃ cp', Source.parse o cp.program.text = .ok cp' ∧ cp'.Same cp := by
  obtain ⟨_, t, -, -, hread, -, hreport⟩ := parse_cases h
  have hindexed := toProgram_indexed hread
  have hstrict : o.strict → ((Program.indexed cp.program.main cp.program.subroutines).report []).unresolved = [] := by
    intro hs
    rw [hindexed, ← unresolved_unplaced _ t.callPositions, hreport]
    exact unresolved_of_strict h hs
  obtain ⟨positions, hparse⟩ := parse_text_reading (representable_of_parse h) o hstrict
  refine ⟨_, hparse, rfl, rfl, ?_⟩
  rw [hindexed, ← hreport, report_unplaced, report_unplaced]

/-- What the last of some texts that parses is read as; the newest text is the first. -/
def lastParsed (o : ReadOptions) (texts : List Bytes) : Option CheckedProgram :=
  texts.findSome? fun t => (Source.parse o t).toOption

theorem lastParsed_of_ok {o : ReadOptions} {t : Bytes} {cp : CheckedProgram} (h : Source.parse o t = .ok cp)
    (texts : List Bytes) : lastParsed o (t :: texts) = some cp := by
  rw [lastParsed, List.findSome?_cons, h]
  rfl

theorem lastParsed_of_error {o : ReadOptions} {t : Bytes} {e : Fault} (h : Source.parse o t = .error e)
    (texts : List Bytes) : lastParsed o (t :: texts) = lastParsed o texts := by
  rw [lastParsed, List.findSome?_cons, h]
  rfl

theorem lastParsed_again (o : ReadOptions) (t : Bytes) (texts : List Bytes) :
    lastParsed o (t :: t :: texts) = lastParsed o (t :: texts) := by
  cases h : Source.parse o t with
  | ok cp => rw [lastParsed_of_ok h, lastParsed_of_ok h]
  | error e => rw [lastParsed_of_error h]

namespace Viewer

/-- Where a message may lead with such a widget: as `update` says, apart from the text in the widget. -/
inductive Turn (v : Viewer) (fs : Files) : Message → Viewer → Files → Prop
  | edit {k : KeyPress} (e : Editor) : v.effect (.key k) = .edit → Holdable e.text →
      Turn v fs (.key k) { v with note := [], editor := e }.reparse fs
  | save {k : KeyPress} (e : Editor) : v.effect (.key k) = .save →
      (∀ t, v.saved.Fills fs t → Holdable t → e.text = t) → ((∀ t, ¬ v.saved.Fills fs t) → e = v.editor) →
      Turn v fs (.key k) { (v.update fs (.key k)).viewer with editor := e } (v.update fs (.key k)).files
  | other {m : Message} : v.effect m = .none → Turn v fs m (v.update fs m).viewer (v.update fs m).files

def blank (path : Bytes) (s : Settings) : Viewer where
  reading := ⟨path, s.strictCalls⟩
  drawing := s.drawing
  editor := .empty firstEditorWidth
  focus := .diagram
  width := 0
  height := 0
  lastSource := []
  note := []
  program := none
  fault := none
  selected := 0
  scrollRow := 0
  scrollColumn := 0
  pickerItem := 0

theorem new_eq (path source : Bytes) (s : Settings) :
    new path source s = { blank path s with editor := (blank path s).editor.setText source }.reparse := rfl

/-- `Session path source s ms texts v` says that the messages `ms` may lead to `v` from a viewer on the source, and
that the widget has held the `texts`, the newest first. Files may change between the messages. -/
inductive Session (path source : Bytes) (s : Settings) : List Message → List Bytes → Viewer → Prop
  | start (e : Editor) : Holdable e.text → (Holdable source → e.text = source) →
      Session path source s [] [e.text] { blank path s with editor := e }.reparse
  | step {ms texts v m fs u fs'} : Session path source s ms texts v → v.Turn fs m u fs' →
      Session path source s (ms ++ [m]) (u.editor.text :: texts) u

theorem turn_update (v : Viewer) (fs : Files) (m : Message)
    (hedit : v.effect m = .edit → Holdable (v.update fs m).viewer.editor.text)
    (hfill : v.effect m = .save → ∀ p ∈ v.saved.program, (v.editor.setText p.program.text).text = p.program.text) :
    v.Turn fs m (v.update fs m).viewer (v.update fs m).files := by
  cases m with
  | size width height => exact .other rfl
  | key k =>
    cases heffect : v.effect (.key k) with
    | none => exact .other heffect
    | edit =>
      have hholdable := hedit heffect
      obtain ⟨e, he⟩ := update_edit heffect fs
      rw [he] at hholdable ⊢
      rw [reparse_editor] at hholdable
      exact .edit e heffect hholdable
    | save =>
      have hupdate := update_save heffect fs
      obtain ⟨t, hfills, heditor⟩ | ⟨hnot, heditor⟩ := save_editor v.saved fs
      · refine .save (v.update fs (.key k)).viewer.editor heffect (fun t' hfills' _ => ?_) fun hnot =>
          absurd hfills (hnot t)
        obtain ⟨p, hp, rfl⟩ := hfills'.1.program
        rw [hupdate, saveStep, heditor, hfills.1.unique hfills'.1, saved_editor]
        exact hfill heffect p hp
      · refine .save (v.update fs (.key k)).viewer.editor heffect (fun t hfills => absurd hfills (hnot t)) fun _ => ?_
        rw [hupdate, saveStep, heditor, saved_editor]

structure Kept (o : ReadOptions) (texts : List Bytes) (v : Viewer) : Prop where
  reading : v.reading = o
  holdable : Holdable v.editor.text
  newest : ∃ older, texts = v.editor.text :: older
  last : v.lastSource = v.editor.text
  known : v.program.isSome ∨ v.fault.isSome
  fault : ∀ e, v.fault = some e ↔ Source.parse o v.editor.text = .error e
  program : Option.Rel CheckedProgram.Same v.program (lastParsed o texts)

namespace Kept

variable {o : ReadOptions} {texts : List Bytes} {v u : Viewer} {fs fs' : Files} {k : KeyPress} {m : Message}

theorem accept (hholdable : Holdable v.editor.text)
    (hprogram : Option.Rel CheckedProgram.Same v.program (lastParsed v.reading texts)) :
    Kept v.reading (v.editor.text :: texts)
      ({ v with lastSource := v.editor.text }.accept (Source.parse v.reading v.editor.text)) := by
  cases hparse : Source.parse v.reading v.editor.text with
  | error e =>
    refine ⟨rfl, hholdable, ⟨texts, rfl⟩, rfl, .inr rfl, fun e' => ?_, ?_⟩
    · change some e = some e' ↔ Source.parse v.reading v.editor.text = .error e'
      rw [hparse]
      simp
    · rw [lastParsed_of_error hparse]
      exact hprogram
  | ok cp =>
    refine ⟨rfl, hholdable, ⟨texts, rfl⟩, rfl, .inl rfl, fun e' => ?_, ?_⟩
    · change none = some e' ↔ Source.parse v.reading v.editor.text = .error e'
      rw [hparse]
      simp
    · rw [lastParsed_of_ok hparse]
      exact .some (.refl cp)

theorem again (h : Kept o texts v) (hu : v.SameSource u) : Kept o (u.editor.text :: texts) u := by
  obtain ⟨older, rfl⟩ := h.newest
  refine ⟨hu.reading.trans h.reading, ?_, ⟨_, rfl⟩, ?_, ?_, ?_, ?_⟩
  · rw [hu.text]
    exact h.holdable
  · rw [hu.last, hu.text]
    exact h.last
  · rw [hu.program, hu.fault]
    exact h.known
  · rw [hu.fault, hu.text]
    exact h.fault
  · rw [hu.text, hu.program, lastParsed_again]
    exact h.program

theorem quiet (h : Kept o texts v) : Kept o texts { v with note := [] } :=
  ⟨h.reading, h.holdable, h.newest, h.last, h.known, h.fault, h.program⟩

theorem edit (h : Kept o texts v) {e : Editor} (he : Holdable e.text) :
    Kept o (e.text :: texts) { v with note := [], editor := e }.reparse := by
  obtain rfl := h.reading
  unfold reparse
  dsimp only
  split
  · -- the text is the one that was read last, so the reading of the old text is kept
    next hsame =>
    have htext : e.text = v.editor.text := hsame.1.trans h.last
    exact h.again (u := { v with note := [], editor := e }) ⟨rfl, htext, rfl, rfl, rfl⟩
  · exact accept (v := { v with note := [], editor := e }) he h.program

theorem saved (h : Kept o texts v) : v.saved = { v with note := [] } := by
  unfold Viewer.saved
  split
  · exact if_pos ⟨h.last.symm, h.known⟩
  · rfl

theorem parsed_of_fault (h : Kept o texts v) (hfault : v.fault = none) :
    ∃ cp, Source.parse o v.editor.text = .ok cp := by
  cases hparse : Source.parse o v.editor.text with
  | error e =>
    rw [(h.fault e).mpr hparse] at hfault
    cases hfault
  | ok cp => exact ⟨cp, rfl⟩

theorem program_of_parsed (h : Kept o texts v) {cp : CheckedProgram} (hparse : Source.parse o v.editor.text = .ok cp) :
    v.fault = none ∧ ∃ p, v.program = some p ∧ p.Same cp := by
  constructor
  · cases hfault : v.fault with
    | none => rfl
    | some e => simp [(h.fault e).mp hfault] at hparse
  · have hprogram := h.program
    obtain ⟨older, rfl⟩ := h.newest
    rw [lastParsed_of_ok hparse] at hprogram
    cases hp : v.program with
    | none =>
      rw [hp] at hprogram
      cases hprogram
    | some p =>
      rw [hp] at hprogram
      cases hprogram with
      | some hsame => exact ⟨p, rfl, hsame⟩

theorem offers (h : Kept o texts v) {t : Bytes} (ht : v.Offers t) :
    ∃ cp, Source.parse o v.editor.text = .ok cp ∧ t = cp.program.text := by
  obtain ⟨cp, hparse⟩ := h.parsed_of_fault ht.fault
  obtain ⟨-, p, hp, hsame⟩ := h.program_of_parsed hparse
  obtain ⟨p', hp', rfl⟩ := ht.program
  obtain rfl : p' = p := Option.some.inj (hp'.symm.trans hp)
  exact ⟨cp, hparse, hsame.text⟩

theorem cause_of_not_offers (h : Kept o texts v) (hnot : ∀ t, ¬ v.Offers t) :
    o.file = [] ∨ ∃ e, Source.parse o v.editor.text = .error e := by
  by_cases hpath : o.file = []
  · exact .inl hpath
  · refine .inr ?_
    cases hparse : Source.parse o v.editor.text with
    | error e => exact ⟨e, rfl⟩
    | ok cp =>
      -- with a path and a program it would have been written
      obtain ⟨hfault, p, hp, -⟩ := h.program_of_parsed hparse
      rw [← h.reading] at hpath
      exact absurd ⟨hpath, hfault, p, hp, rfl⟩ (hnot _)

theorem start (path : Bytes) (s : Settings) {e : Editor} (he : Holdable e.text) :
    Kept ⟨path, s.strictCalls⟩ [e.text] { blank path s with editor := e }.reparse := by
  have hunread : ¬ (e.text = [] ∧ ((none : Option CheckedProgram).isSome ∨ (none : Option Fault).isSome)) := by simp
  have hnone : Option.Rel CheckedProgram.Same none (lastParsed ⟨path, s.strictCalls⟩ []) := .none
  unfold reparse
  exact if_neg hunread ▸ accept (v := { blank path s with editor := e }) he hnone

theorem save (h : Kept o texts v) {t : Bytes} (ht : v.Offers t) {e : Editor} (he : e.text = t) (note : Bytes) :
    Kept o (t :: texts) { v with editor := e, lastSource := t, note := note } := by
  obtain ⟨cp, hparse, rfl⟩ := h.offers ht
  obtain ⟨-, p, hp, hsame⟩ := h.program_of_parsed hparse
  obtain ⟨cp', hagain, hsame'⟩ := parse_text_again hparse
  have hholdable := holdable_text_of_parse hparse h.holdable
  -- the program is the old one and no text was read again, which the round trip makes good
  refine ⟨h.reading, ?_, ⟨texts, ?_⟩, ?_, h.known, fun fault => ?_, ?_⟩
  · change Holdable e.text
    rwa [he]
  · change _ = e.text :: texts
    rw [he]
  · exact he.symm
  · change v.fault = some fault ↔ Source.parse o e.text = .error fault
    rw [he, hagain, ht.fault]
    simp
  · change Option.Rel _ v.program _
    rw [hp, lastParsed_of_ok hagain]
    exact .some (hsame.trans hsame'.symm)

end Kept

/-- How a save ends: the file and the widget have the text of what was read, or all but the file is as before. The file
is as before too, unless it was opened and its writing broke off. -/
inductive SaveEnds (o : ReadOptions) (v : Viewer) (fs : Files) (u : Viewer) (fs' : Files) : Prop
  | written {cp : CheckedProgram} : Source.parse o v.editor.text = .ok cp → fs.failure? = none →
      fs.Puts o.file cp.program.text fs' → u.editor.text = cp.program.text → SaveEnds o v fs u fs'
  | cutOff {cp : CheckedProgram} {f : Files.Failure} : Source.parse o v.editor.text = .ok cp → fs.failure? = some f →
      fs.Puts o.file (cp.program.text.take f.kept) fs' → v.SameSource u → SaveEnds o v fs u fs'
  | unchanged : v.SameSource u → fs' = fs →
      (v.focus = .picker ∨ o.file = [] ∨ (∃ e, Source.parse o v.editor.text = .error e) ∨ ¬ fs.IsWritable o.file) →
      SaveEnds o v fs u fs'

section turn

variable {o : ReadOptions} {texts : List Bytes} {v u : Viewer} {fs fs' : Files} {k : KeyPress} {m : Message}

theorem Kept.saveTurn (h : Kept o texts v) (heffect : v.effect (.key k) = .save) {e : Editor}
    (hfill : ∀ t, v.saved.Fills fs t → Holdable t → e.text = t)
    (hkeep : (∀ t, ¬ v.saved.Fills fs t) → e = v.editor) :
    Kept o (e.text :: texts) { (v.update fs (.key k)).viewer with editor := e } ∧
      SaveEnds o v fs { (v.update fs (.key k)).viewer with editor := e } (v.update fs (.key k)).files := by
  obtain rfl := h.reading
  have hupdate := update_save heffect fs
  -- the text was read when it came into the widget, so the viewer saves as it is
  rw [h.saved] at hupdate hfill hkeep
  rw [hupdate, saveStep]
  have hquiet := h.quiet
  have hsame (note : Bytes) : v.SameSource { v with note := note } := ⟨rfl, rfl, rfl, rfl, rfl⟩
  have hsaves := saves { v with note := [] } fs
  generalize { v with note := [] }.save fs = r at hsaves ⊢
  cases hsaves with
  | idle note hnot =>
    obtain rfl := hkeep fun t ht => hnot t ht.1
    have hcause := hquiet.cause_of_not_offers hnot
    exact ⟨h.again (hsame note), .unchanged (hsame note) rfl (.inr (hcause.imp_right .inl))⟩
  | refused note hoffers hwrite =>
    obtain rfl := hkeep (not_fills_of_write hoffers hwrite (by simp))
    have hnot := Files.not_isWritable_of_refused hwrite
    exact ⟨h.again (hsame note), .unchanged (hsame note) rfl (.inr (.inr (.inr hnot)))⟩
  | cutOff note hoffers hwrite =>
    obtain rfl := hkeep (not_fills_of_write hoffers hwrite (by simp))
    obtain ⟨cp, hparse, rfl⟩ := hquiet.offers hoffers
    obtain ⟨f, hfailure, hputs⟩ := Files.puts_of_cutOff hwrite
    exact ⟨h.again (hsame note), .cutOff hparse hfailure hputs (hsame note)⟩
  | done note hoffers hwrite =>
    obtain ⟨cp, hparse, rfl⟩ := hquiet.offers hoffers
    have he := hfill _ ⟨hoffers, _, hwrite⟩ (holdable_text_of_parse hparse h.holdable)
    obtain ⟨hnone, hputs⟩ := Files.puts_of_done hwrite
    refine ⟨?_, .written hparse hnone hputs he⟩
    rw [he]
    exact hquiet.save hoffers he note

theorem Kept.turn (h : Kept o texts v) (hturn : v.Turn fs m u fs') : Kept o (u.editor.text :: texts) u := by
  cases hturn with
  | edit e heffect he =>
    have hedit := h.edit he
    obtain ⟨older, hnewest⟩ := hedit.newest
    rwa [← (List.cons.inj hnewest).1]
  | save e heffect hfill hkeep => exact (h.saveTurn heffect hfill hkeep).1
  | other heffect => exact h.again (update_other heffect fs).1

end turn

def behaves (v : Viewer) (fs : Files) : List Message → Bool
  | [] => true
  | m :: ms =>
    decide (v.effect m = .edit → Holdable (v.update fs m).viewer.editor.text) &&
      decide (v.effect m = .save → ∀ p ∈ v.saved.program, (v.editor.setText p.program.text).text = p.program.text) &&
      behaves (v.update fs m).viewer (v.update fs m).files ms

namespace Session

variable {path source : Bytes} {s : Settings} {ms : List Message} {texts : List Bytes} {v : Viewer}

theorem new (hheld : Holdable (Viewer.new path source s).editor.text)
    (hsource : Holdable source → (Viewer.new path source s).editor.text = source) :
    Session path source s [] [(Viewer.new path source s).editor.text] (Viewer.new path source s) := by
  rw [new_eq, reparse_editor] at hheld hsource ⊢
  exact .start _ hheld hsource

theorem run (h : Session path source s ms texts v) (fs : Files) (ms' : List Message) (hbehaves : v.behaves fs ms') :
    ∃ texts', Session path source s (ms ++ ms') texts' (v.run fs ms').1 := by
  induction ms' generalizing ms texts v fs with
  | nil => exact ⟨texts, by simpa [Viewer.run] using h⟩
  | cons m ms' ih =>
    simp only [behaves, Bool.and_eq_true, decide_eq_true_eq] at hbehaves
    obtain ⟨⟨hedit, hfill⟩, hbehaves⟩ := hbehaves
    have hstep := h.step (turn_update v fs m hedit hfill)
    obtain ⟨texts', hruns⟩ := ih hstep _ hbehaves
    exact ⟨texts', by simpa [Viewer.run] using hruns⟩

end Session

theorem Session.kept {path source : Bytes} {s : Settings} {ms : List Message} {texts : List Bytes} {v : Viewer}
    (h : Session path source s ms texts v) : Kept ⟨path, s.strictCalls⟩ texts v := by
  induction h with
  | start e he _ => exact .start path s he
  | step _ hturn ih => exact ih.turn hturn

def tightSource : Bytes := "Inputs:0:Qbit\nOutputs:0:Qbit"

def tight : Viewer := Viewer.new "pair" tightSource .standard

def savedOnce : List Message := [.key (.named "ctrl+s"), .key (.named "tab"), .key (.ofText "x")]

def broken : Viewer := (tight.run (.empty []) savedOnce).1

end Viewer

end CircuitDesk
