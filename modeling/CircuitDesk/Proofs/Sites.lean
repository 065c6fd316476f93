import CircuitDesk.Proofs.CallNodes
import CircuitDesk.Proofs.Lookup
import CircuitDesk.Proofs.Positions
import CircuitDesk.Proofs.RoundTrip

namespace CircuitDesk

open Grammar (isCallWord)
open CircuitDesk.Tree (bind_eq_ok)

theorem callPositions_of_tokens {file text : Bytes} {ts : List Token} {t : Tree} (hlex : Token.lex file text = .ok ts)
    (htree : Tree.parseTokens .program ts = .ok t) :
    ∃ w, Grammar.Program w t ∧ w ⊆ ts ∧ t.callPositions = (ts.filter isCallWord).map Token.pos := by
  obtain ⟨u, eof, rfl, heof, hu⟩ := Token.lex_ok hlex
  obtain ⟨before, w, after, rfl, hbefore, hafter, hw⟩ :=
    Grammar.derives_of_parseTokens (show Rule.isEntry .program from rfl) heof (fun t ht => (hu t ht).1) htree
  refine ⟨w, hw, fun t ht => by simp [ht], ?_⟩
  have heof : Grammar.NoCalls [eof] :=
    Grammar.lacks_cons.mpr ⟨Grammar.other_kind Grammar.counted_call heof (by decide), Grammar.lacks_nil⟩
  rw [Grammar.callPositions_program hw]
  simp only [List.filter_append, Grammar.filter_noCalls heof,
    Grammar.filter_noCalls (Grammar.lacks_newlines Grammar.counted_call hbefore),
    Grammar.filter_noCalls (Grammar.lacks_newlines Grammar.counted_call hafter), List.nil_append, List.append_nil]

theorem assembled_of_toProgram {t : Tree} {p : Program} (h : t.toProgram = .ok p) : p.Assembled := by
  rw [← toProgram_indexed h]
  exact Program.assembled_indexed _ _

theorem parse_of_tree {file text : Bytes} {t : Tree} (h : Source.tree .program file text = .ok t) (strict : Bool) :
    Source.parse ⟨file, strict⟩ text = (Source.checkedProgram strict t).mapError .semantic := by
  rw [Source.parse, h]
  rfl

theorem checkedProgram_of_check {strict : Bool} {t : Tree} {p : Program} (hread : t.toProgram = .ok p)
    (hcheck : p.check = .ok ()) :
    Source.checkedProgram strict t = match strict, (p.report t.callPositions).unresolved with
      | true, site :: _ => .error ⟨site.pos, site.name, .undefinedCall⟩
      | _, _ => .ok ⟨p, p.report t.callPositions⟩ := by
  have hvalidate := validate_eq_ok.mpr ⟨hcheck, (rfl : p.report t.callPositions = _)⟩
  rw [Source.checkedProgram, hread]
  change (p.validate t.callPositions >>= _) = _
  rw [hvalidate]
  rfl

theorem callWords_ascending {file text : Bytes} {ts : List Token} (hlex : Token.lex file text = .ok ts) :
    (ts.filter isCallWord).Pairwise fun t t' => t.pos.offset < t'.pos.offset := by
  obtain ⟨u, eof, rfl, heof, -⟩ := Token.lex_ok hlex
  have heof : isCallWord eof = false := Grammar.other_kind Grammar.counted_call heof (by decide)
  rw [List.filter_append, List.filter_cons_of_neg (by simp [heof]), List.filter_nil, List.append_nil]
  exact (Token.lex_ascending hlex).filter _

theorem length_calls_of_tree {w : List Token} {t : Tree} {p : Program} (hw : Grammar.Program w t)
    (hread : t.toProgram = .ok p) : p.calls.length = t.callPositions.length := by
  have hlength := congrArg List.length (Grammar.called_program hw hread)
  rw [Program.walk_eq, List.length_map, List.length_map, List.length_map] at hlength
  rw [hlength, Tree.callPositions_eq, List.length_map]

def Program.callsInVain (p : Program) (s : CallSite) : Bool := !p.names.any (· = s.name)

theorem Program.callsInVain_iff {p : Program} {s : CallSite} : p.callsInVain s = true ↔ s.name ∉ p.names := by
  simp only [callsInVain, Bool.not_eq_true', List.any_eq_false, decide_eq_true_eq]
  constructor
  · intro h hmem
    exact h s.name hmem rfl
  · rintro h n hn rfl
    exact h hn

theorem report_resolved {p : Program} (hp : p.Assembled) (positions : List Position) :
    (p.report positions).resolved = (p.callSites positions).filter fun s => !p.callsInVain s := by
  refine List.filter_congr fun s _ => ?_
  rw [Bool.eq_iff_iff, Program.subroutine?_isSome hp, Bool.not_eq_true', ← Bool.not_eq_true, Program.callsInVain_iff,
    Decidable.not_not]

theorem report_unresolved {p : Program} (hp : p.Assembled) (positions : List Position) :
    (p.report positions).unresolved = (p.callSites positions).filter p.callsInVain := by
  refine List.filter_congr fun s _ => ?_
  rw [Bool.eq_iff_iff, Bool.not_eq_true', ← Bool.not_eq_true, Program.subroutine?_isSome hp, Program.callsInVain_iff]

/-- What the sites of a text are: its calls in the order of the walk, each at its word `Subroutine`. The report of
the text splits them by whether their names are defined, and strict reading fails at the first that is not. -/
structure SitesOf (file text : Bytes) (cp : CheckedProgram) (sites : List CallSite) : Prop where
  walk : sites.map (fun s => (s.caller, s.index, s.name)) = cp.program.walk
  places : ∃ ts, Token.lex file text = .ok ts ∧ sites.map CallSite.pos = (ts.filter isCallWord).map Token.pos
  ascending : sites.Pairwise fun s s' => s.pos.offset < s'.pos.offset
  resolved : cp.report.resolved.Sublist sites
  unresolved : cp.report.unresolved.Sublist sites
  mem_resolved : ∀ s, s ∈ cp.report.resolved ↔ s ∈ sites ∧ ∃ d ∈ cp.program.subroutines, d.name = s.name
  mem_unresolved : ∀ s, s ∈ cp.report.unresolved ↔ s ∈ sites ∧ ¬ ∃ d ∈ cp.program.subroutines, d.name = s.name
  disjoint : ∀ s ∈ cp.report.resolved, s ∉ cp.report.unresolved
  all : (cp.report.resolved ++ cp.report.unresolved).Perm sites
  strict : Source.parse ⟨file, true⟩ text = match sites.find? cp.program.callsInVain with
    | some s => .error (.semantic ⟨s.pos, s.name, .undefinedCall⟩)
    | none => .ok cp

theorem sites_of_parse (o : ReadOptions) (text : Bytes) (cp : CheckedProgram) (h : Source.parse o text = .ok cp) :
    ∃ sites, SitesOf o.file text cp sites := by
  obtain ⟨ts, t, hlex, htree, hread, hcheck, hreport⟩ := parse_cases h
  obtain ⟨w, hw, -, hpositions⟩ := callPositions_of_tokens hlex htree
  have hassembled := assembled_of_toProgram hread
  have hplaces := Program.callSites_pos (length_calls_of_tree hw hread)
  have hresolved := report_resolved hassembled t.callPositions
  have hunresolved := report_unresolved hassembled t.callPositions
  rw [hreport] at hresolved hunresolved
  have hmem (s : CallSite) : s ∈ cp.report.resolved ↔
      s ∈ cp.program.callSites t.callPositions ∧ ∃ d ∈ cp.program.subroutines, d.name = s.name := by
    simp [hresolved, ← Bool.not_eq_true, Program.callsInVain_iff, Program.names]
  have hmem' (s : CallSite) : s ∈ cp.report.unresolved ↔
      s ∈ cp.program.callSites t.callPositions ∧ ¬ ∃ d ∈ cp.program.subroutines, d.name = s.name := by
    simp [hunresolved, Program.callsInVain_iff, Program.names]
  refine ⟨cp.program.callSites t.callPositions, ?_⟩
  constructor
  case walk => exact Program.callSites_map _ _
  case places => exact ⟨ts, hlex, hplaces.trans hpositions⟩
  case ascending =>
    have hascending : t.callPositions.Pairwise fun p q => p.offset < q.offset := by
      rw [hpositions, List.pairwise_map]
      exact callWords_ascending hlex
    rwa [← hplaces, List.pairwise_map] at hascending
  case resolved =>
    rw [hresolved]
    exact List.filter_sublist
  case unresolved =>
    rw [hunresolved]
    exact List.filter_sublist
  case mem_resolved => exact hmem
  case mem_unresolved => exact hmem'
  case disjoint => exact fun s hs hs' => ((hmem' s).mp hs').2 ((hmem s).mp hs).2
  case all =>
    rw [hresolved, hunresolved]
    simpa using List.filter_append_perm (fun s => !cp.program.callsInVain s) (cp.program.callSites t.callPositions)
  case strict =>
    have htree' : Source.tree .program o.file text = .ok t := tree_eq_ok.mpr ⟨ts, hlex, htree⟩
    have hreport' : (cp.program.report t.callPositions).unresolved = cp.report.unresolved := by rw [hreport]
    rw [parse_of_tree htree', checkedProgram_of_check hread hcheck, hreport', hunresolved, ← List.head?_filter, hreport]
    cases (cp.program.callSites t.callPositions).filter cp.program.callsInVain with
    | nil => rfl
    | cons site more => rfl

def crossCalls : Bytes :=
  Bytes.unlines ["Inputs: 0:Qbit", "Subroutine[\"f\", shape \"\"] (0) -> (0)", "QGate[\"H\"](0) with nocontrol",
    "Subroutine(x2)[\"g\", shape \"\"] (0) -> (0)", "Outputs: 0:Qbit", "",
    "Subroutine: \"f\"", "Shape: \"\"", "Controllable: no", "Inputs: 0:Qbit", "Subroutine*[\"f\", shape \"\"] (0) -> (0)",
    "Outputs: 0:Qbit"]

theorem sites_of_crossCalls :
    ∃ cp, Source.parse ⟨"calls", false⟩ crossCalls = .ok cp ∧ ∃ sites, SitesOf "calls" crossCalls cp sites := by
  have hok : (Source.parse ⟨"calls", false⟩ crossCalls).toBool = true := by decide +kernel
  cases h : Source.parse ⟨"calls", false⟩ crossCalls with
  | error e =>
    rw [h] at hok
    cases hok
  | ok cp => exact ⟨cp, rfl, sites_of_parse _ crossCalls cp h⟩

end CircuitDesk
