import CircuitDesk.Proofs.Acceptance
import CircuitDesk.Proofs.Tokens

/-!
Where faults stand in the source. All but one of the checks know the token that they fail at; the one that a
finished program is put to has no place to report, and what it finds is a call without a name.
-/
namespace CircuitDesk

open Token (Inside)
open CircuitDesk.Tree (bind_eq_ok bind_eq_error)

namespace Grammar

theorem found_mem {rule : Rule} (hrule : rule.isEntry) {u : List Token} {eof : Token}
    (heof : eof.kind = .endOfInput) {e : Tree.SyntaxFault}
    (he : Tree.parseTokens rule (u ++ [eof]) = .error e) : e.found ∈ u ++ [eof] := by
  rw [parseTokens_eq] at he
  cases hr : (Tree.Reading.skipNewlines >>= fun _ => Tree.reading rule >>= finish rule) (u ++ [eof]) with
  | ok p =>
    rw [hr] at he
    cases he
  | error e' =>
    rw [hr] at he
    cases he
    obtain ⟨w, s, hw, hfound, ⟨v, tree, hv⟩, -⟩ := (recognizes_source rule hrule).stuck trivial hr
    have hclosed := (recognizes_source rule hrule).closed hv
    cases s with
    | nil =>
      -- all of the list would be the start of a word, and no word has the end of the input in it
      rw [List.append_nil] at hw
      exact absurd heof (hclosed eof (by simp [← hw]))
    | cons t s =>
      rw [hw, hfound]
      exact List.mem_append_right w List.mem_cons_self

end Grammar

/-- What the place of a fault is: for text that forms no token, where no class of the lexer fits, and else the place
of a token. -/
structure Points (file text : Bytes) (f : Fault) (p : Position) : Prop where
  pos : f.pos? = some p
  inside : Inside file text p
  unreadable : ∀ e, f = .lexical e → Token.lex file text = .error e ∧ text.drop p.offset = e.rest ∧ e.rest ≠ [] ∧
    Token.firstLexeme e.rest = none ∧ ∃ ts, text.take p.offset = Token.Tile.flat ts ∧ Token.Tile.Cut ts e.rest
  token : (∀ e, f ≠ .lexical e) → ∃ ts, Token.lex file text = .ok ts ∧ ∃ tok ∈ ts, tok.pos = p

def OnlyNameless (file text : Bytes) : Prop :=
  ∃ t, Source.tree .program file text = .ok t ∧ t.Calls [] ∧ ∀ tok, ¬ t.Offends tok

section

variable {file text : Bytes} {f : Fault} {t : Tree}

theorem not_points_unplaced (hf : f.pos? = some .unplaced) (p : Position) : ¬ Points file text f p := by
  intro h
  have hpos : .unplaced = p := Option.some.inj (hf.symm.trans h.pos)
  have hline := h.inside.line
  rw [← hpos] at hline
  exact absurd hline (by decide)

theorem points_of_token {ts : List Token} {tok : Token} (hlex : Token.lex file text = .ok ts) (htok : tok ∈ ts)
    (hpos : f.pos? = some tok.pos) (hf : ∀ e, f ≠ .lexical e) : Points file text f tok.pos where
  pos := hpos
  inside := Token.lex_inside hlex tok htok
  unreadable e he := absurd he (hf e)
  token _ := ⟨ts, hlex, tok, htok, rfl⟩

theorem points_of_tree_error (h : Source.tree .program file text = .error f) : ∃ p, Points file text f p := by
  have hentry : Rule.isEntry .program := rfl
  rw [Source.tree, if_pos hentry] at h
  cases hlex : Token.lex file text with
  | error e =>
    rw [hlex] at h
    cases h
    obtain ⟨hinside, hrest⟩ := Token.lex_stuck hlex
    refine ⟨e.pos, rfl, hinside, fun e' he' => ?_, fun hne => absurd rfl (hne e)⟩
    cases he'
    exact ⟨hlex, hrest⟩
  | ok ts =>
    rw [hlex] at h
    obtain ⟨u, eof, rfl, heof, -⟩ := Token.lex_ok hlex
    cases hparse : Tree.parseTokens .program (u ++ [eof]) with
    | ok t =>
      simp only [hparse] at h
      cases h
    | error e =>
      simp only [hparse] at h
      cases h
      have hfound := Grammar.found_mem rfl heof hparse
      exact ⟨e.found.pos, points_of_token hlex hfound rfl fun _ h => by cases h⟩

theorem points_of_offence {ts : List Token} (hlex : Token.lex file text = .ok ts)
    (htree : Tree.parseTokens .program ts = .ok t) {tok : Token} (htok : t.Offends tok) {e : SemanticFault}
    (hpos : e.pos = tok.pos) : Points file text (.semantic e) tok.pos := by
  obtain ⟨w, hw, hsub, -⟩ := callPositions_of_tokens hlex htree
  have hmem : tok ∈ ts := hsub (Grammar.tokens_program hw htok.mem_tokens)
  exact points_of_token hlex hmem (congrArg some hpos) fun _ h => by cases h

theorem points_of_site {ts : List Token} (hlex : Token.lex file text = .ok ts)
    (htree : Tree.parseTokens .program ts = .ok t) {p : Program} (hread : t.toProgram = .ok p) {site : CallSite}
    (hsite : site ∈ p.callSites t.callPositions) {cause : SemanticCause} :
    Points file text (.semantic ⟨site.pos, site.name, cause⟩) site.pos := by
  obtain ⟨w, hw, -, hpositions⟩ := callPositions_of_tokens hlex htree
  have hplaces := Program.callSites_pos (length_calls_of_tree hw hread)
  have hmem : site.pos ∈ (ts.filter Grammar.isCallWord).map Token.pos := by
    rw [← hpositions, ← hplaces]
    exact List.mem_map_of_mem hsite
  obtain ⟨tok, htok, hpos⟩ := List.mem_map.mp hmem
  rw [← hpos]
  exact points_of_token hlex (List.mem_filter.mp htok).1 rfl fun _ h => by cases h

theorem site_of_error {p : Program} {strict : Bool} {e : SemanticFault} (hread : t.toProgram = .ok p)
    (hcheck : p.check = .ok ()) (h : Source.checkedProgram strict t = .error e) :
    ∃ site ∈ p.callSites t.callPositions, e = ⟨site.pos, site.name, .undefinedCall⟩ := by
  have hunresolved := report_unresolved (assembled_of_toProgram hread) t.callPositions
  rw [checkedProgram_of_check hread hcheck, hunresolved] at h
  cases hsites : (p.callSites t.callPositions).filter p.callsInVain with
  | nil =>
    rw [hsites] at h
    cases strict <;> cases h
  | cons site more =>
    rw [hsites] at h
    have hsite : site ∈ (p.callSites t.callPositions).filter p.callsInVain := by simp [hsites]
    cases strict <;> cases h
    exact ⟨site, (List.mem_filter.mp hsite).1, rfl⟩

end

/-- Every fault has a place in the source, save where a call has no name and nothing else is wrong. -/
theorem fault_points (o : ReadOptions) (text : Bytes) (f : Fault) (h : Source.parse o text = .error f) :
    ((∃ p, Points o.file text f p) ↔ ¬ OnlyNameless o.file text) ∧
      (OnlyNameless o.file text → ∃ i owner, f = .semantic ⟨.unplaced, [], .namelessCallAt i owner⟩) := by
  have placed (hpoints : ∃ p, Points o.file text f p) (hnot : ¬ OnlyNameless o.file text) :
      ((∃ p, Points o.file text f p) ↔ ¬ OnlyNameless o.file text) ∧
        (OnlyNameless o.file text → ∃ i owner, f = .semantic ⟨.unplaced, [], .namelessCallAt i owner⟩) :=
    ⟨iff_of_true hpoints hnot, fun h => absurd h hnot⟩
  cases htree : Source.tree .program o.file text with
  | error e =>
    rw [Source.parse, htree] at h
    cases h
    refine placed (points_of_tree_error htree) ?_
    rintro ⟨t, ht, -⟩
    rw [ht] at htree
    cases htree
  | ok t =>
    obtain ⟨ts, hlex, hparse⟩ := tree_eq_ok.mp htree
    obtain ⟨w, hw, -, -⟩ := callPositions_of_tokens hlex hparse
    have hfinds := Tree.finds_toProgram hw
    have only : OnlyNameless o.file text ↔ t.Calls [] ∧ ∀ tok, ¬ t.Offends tok := by
      simp [OnlyNameless, htree]
    rw [parse_of_tree htree] at h
    cases hread : t.toProgram with
    | error e =>
      rw [checkedProgram_of_error hread] at h
      cases h
      obtain ⟨tok, htok, hpos⟩ := hfinds.refused hread
      exact placed ⟨tok.pos, points_of_offence hlex hparse htok hpos⟩ fun h => (only.mp h).2 tok htok
    | ok p =>
      cases hcheck : p.check with
      | error e =>
        rw [checkedProgram_of_check_error hread hcheck] at h
        cases h
        -- the tree passed as it was read, so all that the check of the whole program still finds is a missing name
        obtain ⟨i, owner, rfl⟩ := (Tree.toProgram_built hread).check_eq_error hcheck
        have honly := only.mpr ⟨nameless_of_check_error hw hread hcheck, hfinds.accepted hread⟩
        refine ⟨iff_of_false ?_ (not_not_intro honly), fun _ => ⟨i, owner, rfl⟩⟩
        rintro ⟨p, hp⟩
        exact not_points_unplaced rfl p hp
      | ok u =>
        have hnameless : ¬ OnlyNameless o.file text := fun h => (check_of_tree hw hread).mp hcheck (only.mp h).1
        cases hchecked : Source.checkedProgram o.strict t with
        | ok cp =>
          rw [hchecked] at h
          cases h
        | error e =>
          rw [hchecked] at h
          cases h
          obtain ⟨site, hsite, rfl⟩ := site_of_error hread hcheck hchecked
          exact placed ⟨site.pos, points_of_site hlex hparse hread hsite⟩ hnameless

def namelessCall : Bytes :=
  Bytes.unlines ["Inputs: 0:Qbit", "Subroutine[\"\", shape \"x\"] (0) -> (0)", "Outputs: 0:Qbit"]

/-- A fault that the source has a token for and that is reported without a place. -/
theorem unplaced_of_namelessCall :
    ∃ f, Source.parse ⟨"f", false⟩ namelessCall = .error f ∧ f.pos? = some .unplaced ∧
      ∀ p, ¬ Points "f" namelessCall f p := by
  have hpos : (match Source.parse ⟨"f", false⟩ namelessCall with
      | .error f => f.pos?
      | .ok _ => none) = some .unplaced := by decide +kernel
  cases h : Source.parse ⟨"f", false⟩ namelessCall with
  | error f =>
    rw [h] at hpos
    exact ⟨f, rfl, hpos, not_points_unplaced hpos⟩
  | ok cp =>
    rw [h] at hpos
    cases hpos

theorem fault_points_of_clashingWires :
    ∃ f, Source.parse ⟨"clash", true⟩ clashingWires = .error f ∧
      ((∃ p, Points "clash" clashingWires f p) ↔ ¬ OnlyNameless "clash" clashingWires) ∧
      (OnlyNameless "clash" clashingWires → ∃ i owner, f = .semantic ⟨.unplaced, [], .namelessCallAt i owner⟩) := by
  have hok : (Source.parse ⟨"clash", true⟩ clashingWires).toBool = false := by decide +kernel
  cases h : Source.parse ⟨"clash", true⟩ clashingWires with
  | error f => exact ⟨f, rfl, fault_points _ clashingWires f h⟩
  | ok cp =>
    rw [h] at hok
    cases hok

end CircuitDesk
