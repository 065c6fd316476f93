import CircuitDesk.Proofs.Grammar.Statements

namespace CircuitDesk.Grammar

open Token (Kind)
open CircuitDesk.Tree.Reading

theorem not_is_of_endsLine {t : Token} {k : Kind} (s : Bytes) (h : EndsLine t) (hk : k ≠ .newline)
    (hk' : k ≠ .endOfInput) : t.is k s = false := by
  rcases h with h | h
  · exact is_eq_false_of_kind (by rw [h]; exact hk.symm)
  · exact is_eq_false_of_kind (by rw [h]; exact hk'.symm)

theorem not_endsLine_of_is {t : Token} {k : Kind} {s : Bytes} (h : t.is k s) (hk : k ≠ .newline)
    (hk' : k ≠ .endOfInput) : ¬ EndsLine t := by
  intro he
  rw [not_is_of_endsLine s he hk hk'] at h
  cases h

theorem not_newline_of_is {t : Token} {k : Kind} {s : Bytes} (h : t.is k s) (hk : k ≠ .newline) :
    isNewline t = false := by
  rw [isNewline, (is_iff.mp h).1]
  exact decide_eq_false hk

theorem declarations_inhabited (word : Bytes) : ∃ w t, Declarations word w t := by
  obtain ⟨w, list, h⟩ := recognizes_arity.inhabited
  exact ⟨⟨.keyword, word, .unplaced⟩ :: ⟨.punctuation, ":", .unplaced⟩ :: w, _,
    .intro (by simp [Token.is]) (by simp [Token.is]) h⟩

theorem declarations_cons {word : Bytes} {w : List Token} {t : Tree} (h : Declarations word w t) :
    ∃ first v, w = first :: v ∧ first.is .keyword word := by
  cases h with | intro h => exact ⟨_, _, rfl, h⟩

theorem recognizes_inputs : RecognizesAfter (·.is .keyword "Inputs" = true) Tree.ioStatement
    (Declarations "Inputs") NoComma := by
  refine RecognizesAfter.restrict recognizes_ioStatement .inl ?_ (declarations_inhabited _)
  rintro w t (h | h)
  · exact .inl h
  · obtain ⟨first, v, rfl, hf⟩ := declarations_cons h
    exact .inr ⟨first, v, rfl, not_is hf (by decide)⟩

theorem recognizes_outputs : RecognizesAfter (·.is .keyword "Outputs" = true) Tree.ioStatement
    (Declarations "Outputs") NoComma := by
  refine RecognizesAfter.restrict recognizes_ioStatement .inr ?_ (declarations_inhabited _)
  rintro w t (h | h)
  · obtain ⟨first, v, rfl, hf⟩ := declarations_cons h
    exact .inr ⟨first, v, rfl, not_is hf (by decide)⟩
  · exact .inl h

theorem recognizes_gateLine : Recognizes Tree.gateLine Gate EndsLine := by
  refine RecognizesAfter.congr (recognizes_gate.bind (fun g => (recognizes_endStatement _).bind
    (fun _ => recognizes_pure _) ?_) ?_) ?_
  · rintro u a w b s - ⟨rfl, rfl⟩ hs
    exact hs
  · rintro u a w b s - ⟨_, _, _, rfl, rfl, rfl, rfl⟩ hs
    exact not_is_of_endsLine _ hs (by decide) (by decide)
  · intro w t
    constructor
    · rintro ⟨_, u, _, rfl, h, _, _, _, rfl, rfl, rfl, rfl⟩
      simpa using h
    · intro h
      exact ⟨t, w, [], by simp, h, (), [], [], rfl, rfl, rfl, rfl⟩

theorem gateLine_endsLine {ts rest : List Token} {t : Tree} (h : Tree.gateLine ts = .ok (t, rest)) :
    EndsLine (front rest) := by
  obtain ⟨g, mid, -, h⟩ := bind_eq_ok.mp h
  obtain ⟨_, mid, hend, h⟩ := bind_eq_ok.mp h
  cases h
  exact endStatement_endsLine hend

theorem gate_cons {w : List Token} {t : Tree} (h : Gate w t) :
    ∃ first v, w = first :: v ∧ isNewline first = false ∧ first.is .keyword "Outputs" = false := by
  rcases h with h | h | h | h | h
  · obtain ⟨first, v, rfl, hf⟩ := qgate_cons h
    exact ⟨first, v, rfl, not_newline_of_is hf (by decide), is_eq_false hf (by decide)⟩
  · obtain ⟨first, v, rfl, hf⟩ := qrot_cons h
    exact ⟨first, v, rfl, not_newline_of_is hf (by decide), is_eq_false hf (by decide)⟩
  · obtain ⟨first, v, rfl, hf | hf⟩ := qinit_cons h
    · exact ⟨first, v, rfl, not_newline_of_is hf (by decide), is_eq_false hf (by decide)⟩
    · exact ⟨first, v, rfl, not_newline_of_is hf (by decide), is_eq_false hf (by decide)⟩
  · obtain ⟨first, v, rfl, hf⟩ := comment_cons h
    exact ⟨first, v, rfl, not_newline_of_is hf (by decide), is_eq_false hf (by decide)⟩
  · obtain ⟨first, v, rfl, hf⟩ := subroutineCall_cons h
    exact ⟨first, v, rfl, not_newline_of_is hf (by decide), is_eq_false hf (by decide)⟩

theorem recognizes_gates : RecognizesAfter EndsLine
    (repeatUntil (·.is .keyword "Outputs") Tree.gateLine Tree.shrinks_gateLine) (Block False Gate)
    (·.is .keyword "Outputs" = true) := by
  refine recognizes_repeatUntil _ recognizes_gateLine gateLine_endsLine gate_cons fun t ht => ?_
  have hn := not_endsLine_of_is ht (by decide) (by decide)
  exact ⟨not_newline_of_is ht (by decide), ⟨fun h => hn h, False.elim⟩⟩

theorem recognizes_circuit : Recognizes Tree.circuit Circuit EndsLine := by
  refine RecognizesAfter.congr (recognizes_skipNewlines.bind (fun _ => recognizes_orFail
    (recognizes_inputs.bind (fun inputs => (recognizes_endStatement _).bind_after endStatement_endsLine
      (fun _ => recognizes_gates.bind_after repeatUntil_front (fun gates =>
        recognizes_outputs.bind (fun outputs => (recognizes_endStatement _).bind
          (fun _ => recognizes_pure _) ?_) ?_) ?_) ?_) ?_) _ _ ?_) ?_) ?_
  · rintro u a w b s - ⟨rfl, rfl⟩ hs
    exact hs
  · rintro u a w b s - ⟨_, _, _, rfl, rfl, rfl, rfl⟩ hs
    exact not_is_of_endsLine _ hs (by decide) (by decide)
  · rintro u a w b s - ⟨outputs, o, _, rfl, h, -⟩ -
    obtain ⟨first, v, rfl, hf⟩ := declarations_cons h
    exact hf
  · rintro u a w b s - ⟨gates, g, _, rfl, h, -⟩ -
    rw [List.append_assoc]
    exact block_front h False.elim
  · rintro u a w b s - ⟨_, _, _, rfl, rfl, gates, g, _, rfl, h, -⟩ -
    rw [List.nil_append, List.append_assoc]
    exact not_is_of_endsLine _ (block_front h False.elim) (by decide) (by decide)
  · rintro w a s ⟨inputs, i, _, rfl, h, -⟩ -
    obtain ⟨first, v, rfl, hf⟩ := declarations_cons h
    exact hf
  · rintro u a w b s - ⟨inputs, i, _, rfl, h, -⟩ -
    obtain ⟨first, v, rfl, hf⟩ := declarations_cons h
    exact not_newline_of_is hf (by decide)
  · intro w t
    constructor
    · rintro ⟨_, nl, _, rfl, hnl, inputs, i, _, rfl, hi, _, _, _, rfl, rfl, gates, _, _, rfl, h, ho⟩
      obtain ⟨ls, nl', rfl, hls, hnl', hne⟩ := h
      obtain ⟨outputs, o, _, rfl, ho, _, _, _, rfl, rfl, rfl, rfl⟩ := ho
      simpa using Circuit.intro hnl hi hls hnl' hne ho
    · rintro ⟨hnl, hi, hls, hnl', hne, ho⟩
      exact ⟨(), _, _, by simp, hnl, _, _, _, rfl, hi, (), [], _, rfl, rfl, _, _, _, rfl,
        ⟨_, _, rfl, hls, hnl', hne⟩, _, _, _, rfl, ho, (), [], [], rfl, rfl, rfl, rfl⟩

theorem circuit_endsLine {ts rest : List Token} {t : Tree} (h : Tree.circuit ts = .ok (t, rest)) :
    EndsLine (front rest) := by
  obtain ⟨_, mid, -, h⟩ := bind_eq_ok.mp h
  rw [peek_bind_apply] at h
  split at h
  · obtain ⟨_, mid, -, h⟩ := bind_eq_ok.mp h
    obtain ⟨_, mid, -, h⟩ := bind_eq_ok.mp h
    obtain ⟨_, mid, -, h⟩ := bind_eq_ok.mp h
    obtain ⟨_, mid, -, h⟩ := bind_eq_ok.mp h
    obtain ⟨_, mid, hend, h⟩ := bind_eq_ok.mp h
    cases h
    exact endStatement_endsLine hend
  · cases h

def Body : Phrase Tree := fun w t => ∃ nl c, w = nl ++ c ∧ Newlines nl ∧ nl ≠ [] ∧ Circuit c t

theorem circuit_of_body {w : List Token} {t : Tree} (h : Body w t) : Circuit w t := by
  obtain ⟨nl, _, rfl, hnl, -, hnl', hi, hls, hnl'', hne, ho⟩ := h
  rw [← List.append_assoc, ← List.append_assoc, ← List.append_assoc, ← List.append_assoc]
  refine .intro ?_ hi hls hnl'' hne ho
  intro t ht
  rcases List.mem_append.mp ht with ht | ht
  · exact hnl t ht
  · exact hnl' t ht

theorem body_inhabited : ∃ w t, Body w t := by
  obtain ⟨w, t, h⟩ := recognizes_circuit.inhabited
  exact ⟨newlineToken :: w, t, [newlineToken], w, rfl, newlines_newlineToken, by simp, h⟩

theorem recognizes_body : RecognizesAfter EndsLine Tree.circuit Body EndsLine := by
  refine RecognizesAfter.restrict recognizes_circuit circuit_of_body ?_ body_inhabited
  rintro w t ⟨hnl, hi, hls, hnl', hne, ho⟩
  rename_i nl i inputs ls gates nl' o outputs
  by_cases hnil : nl = []
  · subst hnil
    obtain ⟨first, v, rfl, hf⟩ := declarations_cons hi
    exact .inr ⟨first, v ++ ls ++ nl' ++ o, by simp, not_endsLine_of_is hf (by decide) (by decide)⟩
  · refine .inl ⟨nl, i ++ ls ++ nl' ++ o, by simp, hnl, hnil, ?_⟩
    simpa using Circuit.intro newlines_nil hi hls hnl' hne ho

theorem body_front {w s : List Token} {t : Tree} (h : Body w t) : EndsLine (front (w ++ s)) := by
  obtain ⟨nl, c, rfl, hnl, hne, -⟩ := h
  obtain ⟨first, nl, rfl⟩ := List.exists_cons_of_ne_nil hne
  exact .inl (of_decide_eq_true (hnl first (by simp)))

theorem recognizes_subroutine : Recognizes Tree.subroutine Subroutine EndsLine := by
  refine RecognizesAfter.congr ((recognizes_expect _ (by decide) _).andThen fun opening =>
    (recognizes_expectKind _ (by decide)).andThen fun name => recognizes_skipNewlines.bind (fun _ =>
      (recognizes_expect _ (by decide) _).andThen fun _ => (recognizes_expectKind _ (by decide)).andThen
        fun shape => recognizes_skipNewlines.bind (fun _ => (recognizes_expect _ (by decide) _).andThen
          fun _ => (recognizes_require _ _ (((visible_is (by decide) _).or (visible_is (by decide) _)).or
            (visible_is (by decide) _))).andThen fun controllable =>
              (recognizes_endStatement _).bind_after endStatement_endsLine (fun _ =>
                recognizes_body.bind (fun body => recognizes_pure _) ?_) ?_) ?_) ?_) ?_
  · rintro u a w b s - ⟨rfl, rfl⟩ hs
    exact hs
  · rintro u a w b s - ⟨body, w, _, rfl, h, rfl, rfl⟩ -
    rw [List.append_nil]
    exact body_front h
  · intro u a w b s _ h _
    obtain ⟨t, v, rfl, ht, -⟩ := Phrase.seq_one.mp h
    exact not_newline_of_is ht (by decide)
  · intro u a w b s _ h _
    obtain ⟨t, v, rfl, ht, -⟩ := Phrase.seq_one.mp h
    exact not_newline_of_is ht (by decide)
  · intro w t
    simp only [Phrase.seq_one_eq, Phrase.seq_empty_eq, decide_eq_true_eq, Bool.or_eq_true, or_assoc]
    constructor
    · rintro ⟨opening, _, rfl, hopening, name, _, rfl, hname, _, nl, _, rfl, hnl, h⟩
      obtain ⟨shapeWord, _, rfl, hsw, shape, _, rfl, hshape, _, nl', _, rfl, hnl', h⟩ := h
      obtain ⟨controlWord, _, rfl, hcw, controllable, _, rfl, hcontrollable, _, _, _, rfl, rfl, h⟩ := h
      obtain ⟨body, ⟨nl'', c, rfl, hnl'', hne, hbody⟩, rfl⟩ := h
      simpa using Subroutine.intro hopening hname hnl hsw hshape hnl' hcw hcontrollable hnl'' hne hbody
    · rintro ⟨hopening, hname, hnl, hsw, hshape, hnl', hcw, hcontrollable, hnl'', hne, hbody⟩
      exact ⟨_, _, by simp only [List.append_assoc, List.cons_append]; rfl, hopening, _, _, rfl, hname,
        (), _, _, rfl, hnl, _, _, rfl, hsw, _, _, rfl, hshape, (), _, _, rfl, hnl', _, _, rfl, hcw,
        _, _, rfl, hcontrollable, (), [], _, rfl, rfl, _, ⟨_, _, rfl, hnl'', hne, hbody⟩, rfl⟩

theorem subroutine_endsLine {ts rest : List Token} {t : Tree} (h : Tree.subroutine ts = .ok (t, rest)) :
    EndsLine (front rest) := by
  obtain ⟨_, mid, -, h⟩ := bind_eq_ok.mp h
  obtain ⟨_, mid, -, h⟩ := bind_eq_ok.mp h
  obtain ⟨_, mid, -, h⟩ := bind_eq_ok.mp h
  obtain ⟨_, mid, -, h⟩ := bind_eq_ok.mp h
  obtain ⟨_, mid, -, h⟩ := bind_eq_ok.mp h
  obtain ⟨_, mid, -, h⟩ := bind_eq_ok.mp h
  obtain ⟨_, mid, -, h⟩ := bind_eq_ok.mp h
  obtain ⟨_, mid, -, h⟩ := bind_eq_ok.mp h
  obtain ⟨_, mid, -, h⟩ := bind_eq_ok.mp h
  obtain ⟨_, mid, hbody, h⟩ := bind_eq_ok.mp h
  cases h
  exact circuit_endsLine hbody

theorem subroutine_cons {w : List Token} {t : Tree} (h : Subroutine w t) :
    ∃ first v, w = first :: v ∧ isNewline first = false ∧ decide (first.kind = .endOfInput) = false := by
  cases h with
  | intro h =>
    refine ⟨_, _, rfl, not_newline_of_is h (by decide), ?_⟩
    rw [(is_iff.mp h).1]
    rfl

def AtEnd (t : Token) : Prop := t.kind = .endOfInput

theorem recognizes_subroutines : RecognizesAfter EndsLine
    (repeatUntil (·.kind = .endOfInput) Tree.subroutine Tree.shrinks_subroutine) (Block True Subroutine)
    AtEnd := by
  refine (recognizes_repeatUntil _ recognizes_subroutine subroutine_endsLine subroutine_cons
    fun t ht => ?_).weaken fun t ht => decide_eq_true ht
  have hk := of_decide_eq_true ht
  refine ⟨?_, ⟨fun _ => trivial, fun _ => .inr hk⟩⟩
  rw [isNewline, hk]
  rfl

def ProgramLines : Phrase Tree := fun w t => ∃ p nl, w = p ++ nl ∧ Program p t ∧ Newlines nl

theorem recognizes_program :
    Recognizes Tree.program ProgramLines AtEnd := by
  refine RecognizesAfter.congr (recognizes_circuit.bind_after circuit_endsLine (fun main =>
    recognizes_subroutines.bind (fun subs => recognizes_pure _) ?_) ?_) ?_
  · rintro u a w b s - ⟨rfl, rfl⟩ hs
    exact hs
  · rintro u a w b s - ⟨subs, w, _, rfl, h, rfl, rfl⟩ hs
    rw [List.append_nil]
    exact block_front h fun _ => .inr hs
  · intro w t
    simp only [Phrase.seq_empty_eq]
    constructor
    · rintro ⟨main, c, _, rfl, hc, subs, ⟨ls, nl, rfl, hls, hnl, -⟩, rfl⟩
      exact ⟨c ++ ls, nl, by simp, .intro hc hls, hnl⟩
    · rintro ⟨_, nl, rfl, ⟨hc, hls⟩, hnl⟩
      exact ⟨_, _, _, List.append_assoc .., hc, _, ⟨_, _, rfl, hls, hnl, fun _ => trivial⟩, rfl⟩

end CircuitDesk.Grammar
