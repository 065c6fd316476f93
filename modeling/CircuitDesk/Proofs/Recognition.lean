import CircuitDesk.Proofs.Grammar.Leaves
import CircuitDesk.Proofs.Grammar.Programs

/-!
Parsing is exact. A token list is accepted as a rule if and only if it is a word of the rule between
blank lines, and what is refused is refused at the first token that no accepted list can have there.
-/
namespace CircuitDesk.Grammar

open Token (Kind)
open CircuitDesk.Tree.Reading

def Source (L : Phrase Tree) : Phrase Tree := fun w t =>
  ∃ before v after, w = before ++ v ++ after ∧ Newlines before ∧ Newlines after ∧ L v t

theorem endsLine_front {w s : List Token} (hw : Newlines w) (hs : AtEnd (front s)) :
    EndsLine (front (w ++ s)) := by
  cases w with
  | nil => exact .inr hs
  | cons t w => exact .inl (of_decide_eq_true (hw t (by simp)))

theorem not_newline_of_atEnd {t : Token} (h : AtEnd t) : isNewline t = false := by
  rw [isNewline, show t.kind = .endOfInput from h]
  rfl

def finish (rule : Rule) (tree : Tree) : Tree.Reading Tree := do
  skipNewlines
  if (← peek).kind = .endOfInput then return tree else fail rule .endOfInput

theorem recognizes_finish (rule : Rule) (tree : Tree) :
    Recognizes (finish rule tree) (fun w t => Newlines w ∧ t = tree) AtEnd := by
  refine RecognizesAfter.congr (recognizes_skipNewlines.bind (fun _ =>
    recognizes_orFail (recognizes_pure tree).anywhere _ _ ?_) ?_) ?_
  · rintro w t s ⟨rfl, rfl⟩ hs
    exact hs
  · rintro u a w b s - ⟨rfl, rfl⟩ hs
    exact not_newline_of_atEnd hs
  · intro w t
    simp only [Phrase.seq_empty_eq]
    constructor
    · rintro ⟨_, hw, rfl⟩
      exact ⟨hw, rfl⟩
    · rintro ⟨hw, rfl⟩
      exact ⟨(), hw, rfl⟩

def Padded (L : Phrase Tree) : Phrase Tree := fun w t => ∃ v nl, w = v ++ nl ∧ L v t ∧ Newlines nl

theorem recognizes_finished (rule : Rule) {r : Tree.Reading Tree} {L : Phrase Tree} {stop : Token → Prop}
    (h : Recognizes r L stop) (hstop : ∀ t, EndsLine t → stop t) :
    Recognizes (r >>= finish rule) (Padded L) AtEnd := by
  refine RecognizesAfter.congr (h.bind (recognizes_finish rule) ?_) ?_
  · rintro u a w b s - ⟨hw, -⟩ hs
    exact hstop _ (endsLine_front hw hs)
  · intro w t
    constructor
    · rintro ⟨_, v, nl, rfl, hv, hnl, rfl⟩
      exact ⟨v, nl, rfl, hv, hnl⟩
    · rintro ⟨v, nl, rfl, hv, hnl⟩
      exact ⟨t, v, nl, rfl, hv, hnl, rfl⟩

theorem program_atEnd {ts rest : List Token} {t : Tree} (h : Tree.program ts = .ok (t, rest)) :
    AtEnd (front rest) := by
  obtain ⟨_, mid, -, h⟩ := bind_eq_ok.mp h
  obtain ⟨_, mid, hsubs, h⟩ := bind_eq_ok.mp h
  cases h
  have hk : (front rest).kind = .endOfInput := of_decide_eq_true (repeatUntil_front hsubs)
  exact hk

theorem recognizes_finished_program (rule : Rule) :
    Recognizes (Tree.program >>= finish rule) (Padded Program) AtEnd := by
  have hend (tree : Tree) : RecognizesAfter AtEnd (finish rule tree) (Phrase.empty tree) AtEnd := by
    refine RecognizesAfter.restrict (recognizes_finish rule tree) ?_ ?_ ⟨[], tree, rfl, rfl⟩
    · rintro w t ⟨rfl, rfl⟩
      exact ⟨newlines_nil, rfl⟩
    · rintro w t ⟨hw, rfl⟩
      cases w with
      | nil => exact .inl ⟨rfl, rfl⟩
      | cons first w =>
        refine .inr ⟨first, w, rfl, fun h => ?_⟩
        have hf := hw first (by simp)
        rw [not_newline_of_atEnd h] at hf
        cases hf
  refine RecognizesAfter.congr (recognizes_program.bind_after program_atEnd hend ?_) ?_
  · rintro u a w b s - ⟨rfl, rfl⟩ hs
    exact hs
  · intro w t
    constructor
    · rintro ⟨_, _, _, rfl, ⟨p, nl, rfl, hp, hnl⟩, rfl, rfl⟩
      exact ⟨p, nl, by simp, hp, hnl⟩
    · rintro ⟨p, nl, rfl, hp, hnl⟩
      exact ⟨t, p ++ nl, [], by simp, ⟨p, nl, rfl, hp, hnl⟩, rfl, rfl⟩

def Leads (L : Phrase Tree) : Prop := ∀ w t, L w t →
  ∃ nl v, w = nl ++ v ∧ Newlines nl ∧ L v t ∧ ∀ first u, v = first :: u → isNewline first = false

theorem Leads.padded {L : Phrase Tree} (h : Leads L) : Leads (Padded L) := by
  rintro _ t ⟨w, after, rfl, hw, hafter⟩
  obtain ⟨nl, v, rfl, hnl, hv, hfirst⟩ := h w t hw
  cases v with
  | nil => exact ⟨nl ++ after, [], by simp, hnl.append hafter, ⟨[], [], rfl, hv, newlines_nil⟩, by simp⟩
  | cons first v =>
    refine ⟨nl, first :: v ++ after, by simp, hnl, ⟨first :: v, after, rfl, hv, hafter⟩, ?_⟩
    rintro _ _ ⟨⟩
    exact hfirst first v rfl

theorem skipNewlines_front {ts rest : List Token} {a : Unit} (h : skipNewlines ts = .ok (a, rest)) :
    isNewline (front rest) = false := by
  obtain ⟨w, s, rfl, hw, hs⟩ := newlines_split ts
  simp only [skipNewlines, dropWhile_newlines hw hs] at h
  cases h
  exact hs

theorem recognizes_skipped {r : Tree.Reading Tree} {L : Phrase Tree} (h : Recognizes r (Padded L) AtEnd)
    (hL : Leads L) : Recognizes (skipNewlines >>= fun _ => r) (Source L) AtEnd := by
  have hstart : RecognizesAfter (isNewline · = false) r
      (fun w t => Padded L w t ∧ ∀ first u, w = first :: u → isNewline first = false) AtEnd := by
    refine RecognizesAfter.restrict h (fun h => h.1) ?_ ?_
    · intro w t hw
      cases w with
      | nil => exact .inl ⟨hw, by simp⟩
      | cons first w =>
        cases hf : isNewline first with
        | false => exact .inl ⟨hw, by rintro _ _ ⟨⟩; exact hf⟩
        | true => exact .inr ⟨first, w, rfl, by simp [hf]⟩
    · obtain ⟨w, t, hw⟩ := h.inhabited
      obtain ⟨nl, v, rfl, hnl, hv, hfirst⟩ := hL.padded w t hw
      exact ⟨v, t, hv, hfirst⟩
  refine RecognizesAfter.congr
    (recognizes_skipNewlines.bind_after skipNewlines_front (fun _ => hstart) ?_) ?_
  · rintro u a w b s - ⟨-, hfirst⟩ hs
    cases w with
    | nil => exact not_newline_of_atEnd hs
    | cons first w => exact hfirst first w rfl
  · intro w t
    constructor
    · rintro ⟨_, before, _, rfl, hbefore, ⟨v, after, rfl, hv, hafter⟩, -⟩
      exact ⟨before, v, after, by simp, hbefore, hafter, hv⟩
    · rintro ⟨before, v, after, rfl, hbefore, hafter, hv⟩
      obtain ⟨nl, u, hu, hnl, hw, hfirst⟩ := hL.padded _ t ⟨v, after, rfl, hv, hafter⟩
      refine ⟨(), before ++ nl, u, ?_, hbefore.append hnl, hw, hfirst⟩
      rw [List.append_assoc, hu, List.append_assoc]

theorem leads_of_cons {L : Phrase Tree}
    (h : ∀ {w t}, L w t → w = [] ∨ ∃ first v, w = first :: v ∧ isNewline first = false) : Leads L := by
  intro w t hw
  refine ⟨[], w, rfl, newlines_nil, hw, ?_⟩
  rintro first v rfl
  rcases h hw with hn | ⟨_, _, hc, hf⟩
  · cases hn
  · cases hc
    exact hf

theorem not_newline_of_kind {t : Token} {k : Kind} (h : t.kind = k) (hk : k ≠ .newline) :
    isNewline t = false := by
  rw [isNewline, h]
  exact decide_eq_false hk

theorem leads_of_gate {L : Phrase Tree} (h : ∀ {w t}, L w t → Gate w t) : Leads L := by
  refine leads_of_cons fun hw => .inr ?_
  obtain ⟨first, v, rfl, hf, -⟩ := gate_cons (h hw)
  exact ⟨first, v, rfl, hf⟩

theorem circuit_split {w : List Token} {t : Tree} (h : Circuit w t) :
    ∃ nl first v, w = nl ++ first :: v ∧ Newlines nl ∧ Circuit (first :: v) t ∧ isNewline first = false := by
  obtain ⟨hnl, hi, hls, hnl', hne, ho⟩ := h
  rename_i nl i inputs ls gates nl' o outputs
  obtain ⟨first, v, rfl, hf⟩ := declarations_cons hi
  refine ⟨nl, first, v ++ ls ++ nl' ++ o, by simp, hnl, ?_, not_newline_of_is hf (by decide)⟩
  simpa using Circuit.intro newlines_nil hi hls hnl' hne ho

theorem leads_circuit : Leads Circuit := by
  intro w t h
  obtain ⟨nl, first, v, rfl, hnl, hv, hf⟩ := circuit_split h
  refine ⟨nl, first :: v, rfl, hnl, hv, ?_⟩
  rintro _ _ ⟨⟩
  exact hf

theorem leads_program : Leads Program := by
  rintro _ _ ⟨hc, hls⟩
  obtain ⟨nl, first, v, rfl, hnl, hv, hf⟩ := circuit_split hc
  refine ⟨nl, first :: v ++ _, List.append_assoc .., hnl, .intro hv hls, ?_⟩
  rintro _ _ ⟨⟩
  exact hf

theorem separated_cons {α : Type} {L : Phrase α} {w : List Token} {as : List α} (h : Separated L w as)
    (hL : ∀ {w a}, L w a → ∃ first v, w = first :: v ∧ isNewline first = false) :
    ∃ first v, w = first :: v ∧ isNewline first = false := by
  cases h with
  | one h => exact hL h
  | cons h _ _ =>
    obtain ⟨first, v, rfl, hf⟩ := hL h
    exact ⟨first, _, rfl, hf⟩

theorem typeAssignment_cons {w : List Token} {t : Tree} (h : TypeAssignment w t) :
    ∃ first v, w = first :: v ∧ isNewline first = false := by
  cases h with | intro h => exact ⟨_, _, rfl, not_newline_of_kind h (by decide)⟩

theorem controlApp_cons {w : List Token} {t : Tree} (h : ControlApp w t) :
    ∃ first v, w = first :: v ∧ isNewline first = false := by
  cases h with
  | none h => exact ⟨_, _, rfl, not_newline_of_is h (by decide)⟩
  | list h => exact ⟨_, _, rfl, not_newline_of_is h (by decide)⟩
  | listOnly h => exact ⟨_, _, rfl, not_newline_of_is h (by decide)⟩

theorem leads_derives (rule : Rule) : Leads (Derives rule) := by
  cases rule
  case program => exact leads_program
  case circuit => exact leads_circuit
  case ioStatement =>
    refine leads_of_cons fun h => .inr ?_
    rcases h with h | h
    · obtain ⟨first, v, rfl, hf⟩ := declarations_cons h
      exact ⟨first, v, rfl, not_newline_of_is hf (by decide)⟩
    · obtain ⟨first, v, rfl, hf⟩ := declarations_cons h
      exact ⟨first, v, rfl, not_newline_of_is hf (by decide)⟩
  case arity =>
    refine leads_of_cons fun h => .inr ?_
    cases h with | intro h => exact separated_cons h typeAssignment_cons
  case typeAssignment => exact leads_of_cons fun h => .inr (typeAssignment_cons h)
  case gate => exact leads_of_gate fun h => h
  case qgate => exact leads_of_gate .qgate
  case qrot => exact leads_of_gate .qrot
  case qinit => exact leads_of_gate .qinit
  case comment => exact leads_of_gate .comment
  case subroutineCall => exact leads_of_gate .call
  case wire =>
    refine leads_of_cons fun h => .inr ?_
    cases h with
    | intro h => cases h with | intro h => exact ⟨_, _, rfl, not_newline_of_kind h (by decide)⟩
  case intList =>
    refine leads_of_cons fun h => ?_
    cases h with
    | intro h =>
      cases h with
      | none => exact .inl rfl
      | some h =>
        obtain ⟨first, v, rfl, hf⟩ := integers_cons h
        exact .inr ⟨first, v, rfl, not_newline_of_kind hf (by decide)⟩
  case controlApp => exact leads_of_cons fun h => .inr (controlApp_cons h)
  case subroutine =>
    refine leads_of_cons fun h => .inr ?_
    obtain ⟨first, v, rfl, hf, -⟩ := subroutine_cons h
    exact ⟨first, v, rfl, hf⟩
  all_goals exact fun _ _ h => h.elim

theorem recognizes_source (rule : Rule) (hrule : rule.isEntry) :
    Recognizes (skipNewlines >>= fun _ => Tree.reading rule >>= finish rule) (Source (Derives rule))
      AtEnd := by
  refine recognizes_skipped ?_ (leads_derives rule)
  have other (k : Kind) (s : Bytes) (hk : k ≠ .newline) (hk' : k ≠ .endOfInput) :
      ∀ t, EndsLine t → t.is k s = false := fun t h => not_is_of_endsLine s h hk hk'
  have noComma := other .punctuation "," (by decide) (by decide)
  have noWith := other .keyword "with" (by decide) (by decide)
  cases rule
  case program => exact recognizes_finished_program _
  case circuit => exact recognizes_finished _ recognizes_circuit fun _ h => h
  case ioStatement => exact recognizes_finished _ recognizes_ioStatement noComma
  case arity => exact recognizes_finished _ recognizes_arity noComma
  case typeAssignment => exact recognizes_finished _ recognizes_typeAssignment fun _ _ => trivial
  case gate => exact recognizes_finished _ recognizes_gate noWith
  case qgate => exact recognizes_finished _ recognizes_qgate noWith
  case qrot => exact recognizes_finished _ recognizes_qrot fun _ _ => trivial
  case qinit => exact recognizes_finished _ recognizes_qinit fun _ _ => trivial
  case comment => exact recognizes_finished _ recognizes_comment fun _ _ => trivial
  case wire => exact recognizes_finished _ recognizes_wire fun _ _ => trivial
  case subroutineCall => exact recognizes_finished _ recognizes_subroutineCall noWith
  case intList =>
    refine recognizes_finished _ recognizes_intList fun t h => ⟨noComma t h, ?_⟩
    rcases h with h | h <;> rw [h] <;> decide
  case controlApp => exact recognizes_finished _ recognizes_controlApp noWith
  case subroutine => exact recognizes_finished _ recognizes_subroutine fun _ h => h
  all_goals simp [Rule.isEntry, Rule.entries] at hrule

theorem parseTokens_eq (rule : Rule) (ts : List Token) :
    Tree.parseTokens rule ts =
      ((skipNewlines >>= fun _ => Tree.reading rule >>= finish rule) ts).map (·.1) := rfl

theorem parseTokens_of_derives {rule : Rule} (hrule : rule.isEntry) {w : List Token} {t : Tree} {eof : Token}
    (heof : eof.kind = .endOfInput) (h : Source (Derives rule) w t) :
    Tree.parseTokens rule (w ++ [eof]) = .ok t := by
  have hs : AtEnd (front [eof]) := heof
  rw [parseTokens_eq, (recognizes_source rule hrule).complete h hs]
  rfl

theorem finish_atEnd {rule : Rule} {tree t : Tree} {ts rest : List Token}
    (h : finish rule tree ts = .ok (t, rest)) : AtEnd (front rest) := by
  obtain ⟨_, mid, -, h⟩ := bind_eq_ok.mp h
  rw [peek_bind_apply] at h
  split at h
  · rename_i hk
    cases h
    exact hk
  · cases h

theorem derives_of_parseTokens {rule : Rule} (hrule : rule.isEntry) {u : List Token} {t : Tree} {eof : Token}
    (heof : eof.kind = .endOfInput) (hu : ∀ t ∈ u, t.kind ≠ .endOfInput)
    (h : Tree.parseTokens rule (u ++ [eof]) = .ok t) : Source (Derives rule) u t := by
  rw [parseTokens_eq] at h
  cases hr : (skipNewlines >>= fun _ => Tree.reading rule >>= finish rule) (u ++ [eof]) with
  | error e => rw [hr] at h; cases h
  | ok p =>
    obtain ⟨a, rest⟩ := p
    rw [hr] at h
    cases h
    have hend : AtEnd (front rest) := by
      obtain ⟨_, mid, -, h⟩ := bind_eq_ok.mp hr
      obtain ⟨_, mid, -, h⟩ := bind_eq_ok.mp h
      exact finish_atEnd h
    obtain ⟨w, hw, hsource, -⟩ := (recognizes_source rule hrule).sound trivial hr
    have hclosed := (recognizes_source rule hrule).closed hsource
    -- the word stops where the end of the input stands, which is only behind `u`
    have huw : u = w := by
      rcases List.append_eq_append_iff.mp hw with ⟨v, rfl, hv⟩ | ⟨v, rfl, rfl⟩
      · cases v with
        | nil => simp
        | cons first v =>
          obtain ⟨rfl, -⟩ := List.cons.inj hv
          exact absurd heof (hclosed _ (by simp))
      · cases v with
        | nil => simp
        | cons first v => exact absurd hend (hu first (by simp))
    rw [huw]
    exact hsource

/-- The parser accepts the words of the grammar between blank lines and nothing else, each with the one
tree it has. -/
theorem parseTokens_iff_derives (rule : Rule) (hrule : rule.isEntry) (u : List Token) (eof : Token)
    (heof : eof.kind = .endOfInput) (hu : ∀ t ∈ u, t.kind ≠ .endOfInput) :
    (∀ t, Tree.parseTokens rule (u ++ [eof]) = .ok t ↔
      ∃ before w after, u = before ++ w ++ after ∧ Newlines before ∧ Newlines after ∧ Derives rule w t) ∧
    ((∃ e, Tree.parseTokens rule (u ++ [eof]) = .error e) ↔
      ¬ ∃ before w after t, u = before ++ w ++ after ∧ Newlines before ∧ Newlines after ∧ Derives rule w t) ∧
    (∀ w t t', Derives rule w t → Derives rule w t' → t = t') ∧
    (∀ w t, Derives .comment w t → ∃ opening text rest, ∃ pairs : List (Token × Token),
      w = opening :: text :: rest ∧ rest.filter isLabelPart = pairs.flatMap (fun p => [p.1, p.2]) ∧
      (∀ p ∈ pairs, p.1.kind = .integer ∧ p.2.kind = .string) ∧
      t = .node .comment (some opening)
        [.leaf text, .node .wireLabelList none ((rest.filter isLabelPart).map .leaf)]) ∧
    (∀ w t, Derives .subroutineCall w t → ∃ opening count name shape inputs outputs control,
      t = .node .subroutineCall (some opening)
        [count, .leaf name, .leaf shape, .node .inversion none ((w.filter isStar).map .leaf), inputs, outputs,
          control]) := by
  have accepts (t : Tree) : Tree.parseTokens rule (u ++ [eof]) = .ok t ↔ Source (Derives rule) u t :=
    ⟨derives_of_parseTokens hrule heof hu, parseTokens_of_derives hrule heof⟩
  refine ⟨accepts, ?_, ?_, fun _ _ => comment_labels, fun _ _ => call_stars⟩
  · constructor
    · rintro ⟨e, he⟩ ⟨before, w, after, t, h⟩
      rw [(accepts t).mpr ⟨before, w, after, h⟩] at he
      cases he
    · intro h
      cases hp : Tree.parseTokens rule (u ++ [eof]) with
      | error e => exact ⟨e, rfl⟩
      | ok t =>
        obtain ⟨before, w, after, hw⟩ := (accepts t).mp hp
        exact absurd ⟨before, w, after, t, hw⟩ h
  · intro w t t' ht ht'
    have alone {t : Tree} (ht : Derives rule w t) : Source (Derives rule) w t :=
      ⟨[], w, [], by simp, newlines_nil, newlines_nil, ht⟩
    have h := parseTokens_of_derives hrule heof (alone ht)
    rw [parseTokens_of_derives hrule heof (alone ht')] at h
    exact (Except.ok.inj h).symm

def placeless (kind : Kind) (text : Bytes) : Token := ⟨kind, text, .unplaced⟩

def endToken : Token := placeless .endOfInput []

/-- `Subroutine*["f", shape "g"]*() -> (1)` -/
def twiceInverted : List Token :=
  [placeless .keyword "Subroutine", placeless .punctuation "*", placeless .punctuation "[",
    placeless .string "\"f\"", placeless .punctuation ",", placeless .keyword "shape", placeless .string "\"g\"",
    placeless .punctuation "]", placeless .punctuation "*", placeless .punctuation "(", placeless .punctuation ")",
    placeless .arrow "->", placeless .punctuation "(", placeless .integer "1", placeless .punctuation ")"]

theorem parseTokens_twiceInverted :
    Rule.isEntry .subroutineCall ∧ endToken.kind = .endOfInput ∧ (∀ t ∈ twiceInverted, t.kind ≠ .endOfInput) ∧
      ∃ t, Derives .subroutineCall twiceInverted t ∧
        Tree.parseTokens .subroutineCall (twiceInverted ++ [endToken]) = .ok t := by
  have hclosed : ∀ t ∈ twiceInverted, t.kind ≠ .endOfInput := by decide
  have hinputs : WiresInParens [placeless .punctuation "(", placeless .punctuation ")"] (.node .intList none []) :=
    .intro rfl (.intro .none) rfl
  have houtputs : WiresInParens [placeless .punctuation "(", placeless .integer "1", placeless .punctuation ")"]
      (.node .intList none [.leaf (placeless .integer "1")]) :=
    .intro rfl (.intro (.some (.one ⟨rfl, rfl⟩))) rfl
  have hcall : SubroutineCall twiceInverted _ :=
    .intro rfl .absent (.present rfl) rfl rfl rfl rfl rfl rfl (.present rfl) hinputs rfl houtputs .absent
  refine ⟨rfl, rfl, hclosed, _, hcall, ?_⟩
  refine ((parseTokens_iff_derives .subroutineCall rfl twiceInverted endToken rfl hclosed).1 _).mpr ?_
  exact ⟨[], twiceInverted, [], rfl, newlines_nil, newlines_nil, hcall⟩

/-- A list as the lexer makes it: the end of the input stands last and nowhere else. -/
def Closed (ts : List Token) : Prop :=
  ∃ u eof, ts = u ++ [eof] ∧ eof.kind = .endOfInput ∧ ∀ t ∈ u, t.kind ≠ .endOfInput

/-- A fault stands at the first token that no accepted list can have there: what is before it can be
completed, and nothing that starts with it is accepted. -/
theorem fault_at_first_impossible_token (rule : Rule) (hrule : rule.isEntry) (ts : List Token)
    (hts : Closed ts) (e : Tree.SyntaxFault) (he : Tree.parseTokens rule ts = .error e) :
    ∃ k t, ts[k]? = some t ∧ e.found = t ∧ e.pos = t.pos ∧
      (∃ v tree, Closed (ts.take k ++ v) ∧ Tree.parseTokens rule (ts.take k ++ v) = .ok tree) ∧
      ∀ v tree, Tree.parseTokens rule (ts.take (k + 1) ++ v) ≠ .ok tree := by
  obtain ⟨u, eof, rfl, heof, hu⟩ := hts
  rw [parseTokens_eq] at he
  cases hr : (skipNewlines >>= fun _ => Tree.reading rule >>= finish rule) (u ++ [eof]) with
  | ok p => rw [hr] at he; cases he
  | error e' =>
    rw [hr] at he
    cases he
    obtain ⟨w, s, hw, hfound, ⟨v, tree, hv⟩, hlocal⟩ := (recognizes_source rule hrule).stuck trivial hr
    have hclosed := (recognizes_source rule hrule).closed hv
    cases s with
    | nil =>
      rw [List.append_nil] at hw
      exact absurd heof (hclosed eof (by simp [← hw]))
    | cons t s =>
      have htake : (u ++ [eof]).take w.length = w := by rw [hw, List.take_left]
      have hget : (u ++ [eof])[w.length]? = some t := by simp [hw]
      refine ⟨w.length, t, hget, hfound, congrArg Token.pos hfound, ?_, ?_⟩
      · refine ⟨v ++ [eof], tree, ⟨w ++ v, eof, by rw [htake, List.append_assoc], heof, hclosed⟩, ?_⟩
        rw [htake, ← List.append_assoc]
        exact parseTokens_of_derives hrule heof hv
      · intro v' tree' hok
        rw [List.take_add_one, htake, hget, Option.toList_some, List.append_assoc, parseTokens_eq,
          hlocal ([t] ++ v') rfl] at hok
        cases hok

/-- `QGate["H"] with`, where only a star or a parenthesis can follow the bracket. -/
def gateWithoutWire : List Token :=
  [placeless .opener "QGate[", placeless .string "\"H\"", placeless .punctuation "]", placeless .keyword "with", endToken]

theorem fault_at_gateWithoutWire :
    Rule.isEntry .qgate ∧ Closed gateWithoutWire ∧ ∃ e, Tree.parseTokens .qgate gateWithoutWire = .error e ∧
      ∃ k t, gateWithoutWire[k]? = some t ∧ e.found = t ∧ e.pos = t.pos ∧
        (∃ v tree, Closed (gateWithoutWire.take k ++ v) ∧
          Tree.parseTokens .qgate (gateWithoutWire.take k ++ v) = .ok tree) ∧
        ∀ v tree, Tree.parseTokens .qgate (gateWithoutWire.take (k + 1) ++ v) ≠ .ok tree := by
  have hts : Closed gateWithoutWire := ⟨gateWithoutWire.dropLast, endToken, rfl, rfl, by decide⟩
  have he : Tree.parseTokens .qgate gateWithoutWire =
    .error ⟨.qgate, .literal "(", placeless .keyword "with"⟩ := rfl
  exact ⟨rfl, hts, _, he, fault_at_first_impossible_token .qgate rfl _ hts _ he⟩

end CircuitDesk.Grammar
