import CircuitDesk.Proofs.Recognition
import CircuitDesk.Proofs.Spelling.Cut
import CircuitDesk.Proofs.Spelling.Meaning
import CircuitDesk.Proofs.Written
import CircuitDesk.Source

namespace CircuitDesk

open CircuitDesk.Tree (bind_eq_ok mapError_eq_ok)
open CircuitDesk.Tree.Reading (Newlines newlines_nil)

def CallSite.unplaced (s : CallSite) : CallSite := { s with pos := .unplaced }

def Report.unplaced (r : Report) : Report :=
  ⟨r.resolved.map CallSite.unplaced, r.unresolved.map CallSite.unplaced, r.recursive⟩

theorem callSites_unplaced (p : Program) (positions : List Position) :
    (p.callSites positions).map CallSite.unplaced = p.callSites [] := by
  rw [Program.callSites, Program.callSites, List.map_map]
  rfl

theorem filter_unplaced (q : CallSite → Bool) (hq : ∀ s, q s.unplaced = q s) (sites : List CallSite) :
    (sites.filter q).map CallSite.unplaced = (sites.map CallSite.unplaced).filter q := by
  have hcomp : q ∘ CallSite.unplaced = q := funext hq
  rw [List.filter_map, hcomp]

theorem recursiveNames_unplaced (p : Program) (resolved : List CallSite) :
    p.recursiveNames (resolved.map CallSite.unplaced) = p.recursiveNames resolved := by
  have hedges : ((resolved.map CallSite.unplaced).filter (·.caller ≠ [])).map (fun s => (s.caller, s.name)) =
      (resolved.filter (·.caller ≠ [])).map fun s => (s.caller, s.name) := by
    rw [← filter_unplaced _ (fun _ => rfl), List.map_map]
    rfl
  simp only [Program.recursiveNames, hedges]

theorem report_unplaced (p : Program) (positions : List Position) :
    (p.report positions).unplaced = p.report [] := by
  have hresolved := filter_unplaced (fun s => (p.subroutine? s.name).isSome) (fun _ => rfl) (p.callSites positions)
  have hunresolved :=
    filter_unplaced (fun s => !(p.subroutine? s.name).isSome) (fun _ => rfl) (p.callSites positions)
  rw [callSites_unplaced] at hresolved hunresolved
  simp only [Report.unplaced, Program.report]
  rw [← recursiveNames_unplaced, hresolved, hunresolved]

theorem validate_eq_ok {p : Program} {positions : List Position} {r : Report} :
    p.validate positions = .ok r ↔ p.check = .ok () ∧ p.report positions = r := by
  rw [Program.validate, bind_eq_ok]
  constructor
  · rintro ⟨_, hcheck, h⟩
    exact ⟨hcheck, Except.ok.inj h⟩
  · rintro ⟨hcheck, rfl⟩
    exact ⟨(), hcheck, rfl⟩

theorem checkedProgram_cases {strict : Bool} {t : Tree} {cp : CheckedProgram}
    (h : Source.checkedProgram strict t = .ok cp) :
    t.toProgram = .ok cp.program ∧ cp.program.check = .ok () ∧
      cp.program.report t.callPositions = cp.report := by
  obtain ⟨p, hp, h⟩ := bind_eq_ok.mp h
  obtain ⟨r, hr, h⟩ := bind_eq_ok.mp h
  obtain ⟨hcheck, hreport⟩ := validate_eq_ok.mp hr
  split at h
  · cases h
  · cases h
    exact ⟨hp, hcheck, hreport⟩

theorem ruleTree_eq_ok {rule : Rule} {file text : Bytes} {t : Tree} :
    Source.tree rule file text = .ok t ↔
      rule.isEntry ∧ ∃ ts, Token.lex file text = .ok ts ∧ Tree.parseTokens rule ts = .ok t := by
  rw [Source.tree]
  split
  · next hentry => cases Token.lex file text <;> simp [hentry, mapError_eq_ok]
  · next hentry => simp [hentry]

theorem tree_eq_ok {file text : Bytes} {t : Tree} :
    Source.tree .program file text = .ok t ↔
      ∃ ts, Token.lex file text = .ok ts ∧ Tree.parseTokens .program ts = .ok t :=
  ruleTree_eq_ok.trans (and_iff_right rfl)

theorem parse_cases {o : ReadOptions} {text : Bytes} {cp : CheckedProgram} (h : Source.parse o text = .ok cp) :
    ∃ ts t, Token.lex o.file text = .ok ts ∧ Tree.parseTokens .program ts = .ok t ∧
      t.toProgram = .ok cp.program ∧ cp.program.check = .ok () ∧
      cp.program.report t.callPositions = cp.report := by
  obtain ⟨t, ht, h⟩ := bind_eq_ok.mp h
  obtain ⟨ts, hlex, htree⟩ := tree_eq_ok.mp ht
  exact ⟨ts, t, hlex, htree, checkedProgram_cases (mapError_eq_ok.mp h)⟩

theorem unresolved_of_strict {o : ReadOptions} {text : Bytes} {cp : CheckedProgram} (h : Source.parse o text = .ok cp)
    (hstrict : o.strict) : cp.report.unresolved = [] := by
  obtain ⟨t, -, h⟩ := bind_eq_ok.mp h
  obtain ⟨p, -, h⟩ := bind_eq_ok.mp (mapError_eq_ok.mp h)
  obtain ⟨r, -, h⟩ := bind_eq_ok.mp h
  rw [hstrict] at h
  cases hr : r.unresolved with
  | nil =>
    rw [hr] at h
    cases h
    exact hr
  | cons site sites =>
    rw [hr] at h
    cases h

theorem parse_of_tokens {o : ReadOptions} {text : Bytes} {ts : List Token} {t : Tree} {p : Program}
    (hlex : Token.lex o.file text = .ok ts) (htree : Tree.parseTokens .program ts = .ok t)
    (hread : t.toProgram = .ok p) (hcheck : p.check = .ok ())
    (hstrict : o.strict → (p.report t.callPositions).unresolved = []) :
    Source.parse o text = .ok ⟨p, p.report t.callPositions⟩ := by
  have hchecked : Source.checkedProgram o.strict t = .ok ⟨p, p.report t.callPositions⟩ := by
    refine bind_eq_ok.mpr ⟨p, hread, bind_eq_ok.mpr ⟨_, validate_eq_ok.mpr ⟨hcheck, rfl⟩, ?_⟩⟩
    cases hs : o.strict with
    | false => rfl
    | true =>
      rw [hstrict hs]
      rfl
  exact bind_eq_ok.mpr ⟨t, tree_eq_ok.mpr ⟨ts, hlex, htree⟩, mapError_eq_ok.mpr hchecked⟩

theorem representable_of_parse {o : ReadOptions} {text : Bytes} {cp : CheckedProgram}
    (h : Source.parse o text = .ok cp) : cp.program.Representable := by
  obtain ⟨ts, t, hlex, htree, hread, hcheck, -⟩ := parse_cases h
  obtain ⟨u, eof, rfl, heof, hu⟩ := Token.lex_ok hlex
  have hquoted : Quoted u := fun t ht => (hu t ht).2
  have hentry : Rule.isEntry .program := rfl
  obtain ⟨before, w, after, rfl, -, -, hw⟩ :=
    Grammar.derives_of_parseTokens hentry heof (fun t ht => (hu t ht).1) htree
  exact representable_program hw (hquoted.mono fun t ht => by simp [ht]) hread hcheck

theorem unresolved_unplaced (p : Program) (positions : List Position) :
    (p.report positions).unresolved = [] ↔ (p.report []).unresolved = [] := by
  rw [← report_unplaced p positions]
  exact List.map_eq_nil_iff.symm

theorem parse_text_reading {p : Program} (hp : p.Representable) (o : ReadOptions)
    (hstrict : o.strict → ((Program.indexed p.main p.subroutines).report []).unresolved = []) :
    ∃ positions, Source.parse o p.text =
      .ok ⟨.indexed p.main p.subroutines, (Program.indexed p.main p.subroutines).report positions⟩ := by
  obtain ⟨w, nl, t, hplace, hnl, hw, hread⟩ := spells_program hp (.start o.file)
  have hlex : Token.lex o.file p.text =
      .ok (w ++ nl ++ [⟨.endOfInput, [], (Token.place (.start o.file) p.tiles).2⟩]) := by
    simp only [Token.lex, tiles_programText hp, hplace, if_true]
  have hentry : Rule.isEntry .program := rfl
  have htree (stop : Position) : Tree.parseTokens .program (w ++ nl ++ [⟨.endOfInput, [], stop⟩]) = .ok t :=
    Grammar.parseTokens_of_derives hentry rfl ⟨[], w, nl, rfl, newlines_nil, hnl, hw⟩
  have hrep : (Program.indexed p.main p.subroutines).Representable :=
    ⟨hp.main, hp.subroutines, hp.names_distinct⟩
  exact ⟨_, parse_of_tokens hlex (htree _) hread hrep.check fun h => (unresolved_unplaced _ _).mpr (hstrict h)⟩

theorem parse_text {p : Program} (hp : p.Representable) :
    ∃ positions, Source.parse .plain p.text =
      .ok ⟨.indexed p.main p.subroutines, (Program.indexed p.main p.subroutines).report positions⟩ :=
  parse_text_reading hp .plain fun h => by cases h

theorem toProgram_indexed {t : Tree} {p : Program} (h : t.toProgram = .ok p) :
    Program.indexed p.main p.subroutines = p := by
  rw [Tree.toProgram.eq_def] at h
  split at h
  · obtain ⟨main, -, h⟩ := bind_eq_ok.mp h
    obtain ⟨subs, -, h⟩ := bind_eq_ok.mp h
    cases h
    rfl
  · cases h

/-- Formatting keeps the meaning of a source: the text of what was read reads back as the same program with
the same report, places aside, and is its own text again. -/
theorem parse_text_of_parse (o : ReadOptions) (source : Bytes) (cp : CheckedProgram)
    (h : Source.parse o source = .ok cp) :
    ∃ cp', Source.parse .plain cp.program.text = .ok cp' ∧ cp'.program.main = cp.program.main ∧
      cp'.program.subroutines = cp.program.subroutines ∧ cp'.report.unplaced = cp.report.unplaced ∧
      cp'.program.text = cp.program.text := by
  obtain ⟨positions, hparse⟩ := parse_text (representable_of_parse h)
  obtain ⟨_, t, -, -, hread, -, hreport⟩ := parse_cases h
  refine ⟨_, hparse, rfl, rfl, ?_, rfl⟩
  rw [← hreport, report_unplaced, report_unplaced, toProgram_indexed hread]

def looseSource : Bytes :=
  Bytes.unlines ["Inputs:07:Qbit", "QGate[\"X\"](07)with nocontrol", "QRot[\"R(2pi/%)\",-0e-01](1)",
    "Subroutine*[\"f\",shape\"\"]*()->()", "", "Outputs:7:Cbit"]

theorem parse_text_of_looseSource :
    ∃ cp, Source.parse ⟨"loose", false⟩ looseSource = .ok cp ∧
      ∃ cp', Source.parse .plain cp.program.text = .ok cp' ∧ cp'.program.main = cp.program.main ∧
        cp'.program.subroutines = cp.program.subroutines ∧ cp'.report.unplaced = cp.report.unplaced ∧
        cp'.program.text = cp.program.text := by
  have hok : (Source.parse ⟨"loose", false⟩ looseSource).toBool = true := by decide +kernel
  cases h : Source.parse ⟨"loose", false⟩ looseSource with
  | error e =>
    rw [h] at hok
    cases hok
  | ok cp => exact ⟨cp, rfl, parse_text_of_parse _ looseSource cp h⟩

theorem parse_text_iff_representable (p : Program) :
    (∃ cp, Source.parse .plain p.text = .ok cp ∧ cp.program.main = p.main ∧
      cp.program.subroutines = p.subroutines) ↔ p.Representable := by
  constructor
  · rintro ⟨cp, hparse, hmain, hsubs⟩
    have h := representable_of_parse hparse
    refine ⟨hmain ▸ h.main, fun s hs => h.subroutines s (by rw [hsubs]; exact hs), ?_⟩
    rw [← hsubs]
    exact h.names_distinct
  · intro hp
    obtain ⟨positions, hparse⟩ := parse_text hp
    exact ⟨_, hparse, rfl, rfl⟩

end CircuitDesk
