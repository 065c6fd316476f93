import CircuitDesk.Proofs.Placed
import CircuitDesk.Proofs.TokenTexts
import CircuitDesk.Proofs.Tokens

namespace CircuitDesk

namespace Tree

variable {s t : Tree}

theorem length_labelParts (ps : List (Token × Token)) : (labelParts ps).length = 2 * ps.length := by
  induction ps with
  | nil => rfl
  | cons p ps ih =>
    change (labelParts ps).length + 2 = 2 * (ps.length + 1)
    omega

def commentRules : List Rule := [.comment, .circuit, .subroutine, .program]

theorem commentRules_of_part {rule r : Rule} (hr : r ∈ rule.partRules) (h : r ∈ commentRules) :
    rule ∈ commentRules := by
  have table : ∀ rule ∈ Rule.all, ∀ r ∈ rule.partRules, r ∈ commentRules → rule ∈ commentRules := by decide
  cases rule with
  | unknown => cases hr
  | _ => exact table _ (by decide) r hr h

theorem rule_of_comment (h : t.WellShaped) (hs : Within s t) (hcomment : s.rule = .comment) :
    t.rule ∈ commentRules := by
  induction hs with
  | self => rw [hcomment]; decide
  | part ht _ ih => exact commentRules_of_part (h.shape.part_rule ht) (ih (h.part _ ht))

theorem rule_ne_comment (h : t.WellShaped) {rule : Rule} (hrule : t.rule = rule) (hnone : rule ∉ commentRules)
    (hs : Within s t) : s.rule ≠ .comment :=
  fun hcomment => hnone (hrule ▸ rule_of_comment h hs hcomment)

/-- The label list of a comment against the word it was read from. -/
structure CommentRead (w : List Token) (text : Token) (ps : List (Token × Token)) (t : Tree) : Prop where
  parts : ∃ list, t.parts = [.leaf text, list] ∧ list.parts = labelParts ps ∧ list.parts.length = 2 * ps.length
  wires : w.filter (·.kind = .integer) = ps.map Prod.fst
  built : ∀ g, t.toGate = .ok g →
    ∃ ls, g = .comment (unquoted text) ls ∧ List.Forall₂ (fun p l => labelOf p = .ok l) ps ls

end Tree

namespace Grammar

open CircuitDesk.Tree (CommentRead Within commentRules leaf_subset leaves_subset node_subset rule_ne_comment
  within_node)
open CircuitDesk.Tree.Reading

variable {w : List Token} {s t : Tree}

def CommentIn (w : List Token) (s : Tree) : Prop := ∃ v, v <:+: w ∧ Comment v s

theorem CommentIn.mono {v w : List Token} (h : CommentIn v s) (hin : v <:+: w) : CommentIn w s := by
  obtain ⟨u, hu, hcomment⟩ := h
  exact ⟨u, hu.trans hin, hcomment⟩

section

variable (hs : Within s t) (hcomment : s.rule = .comment)
include hs hcomment

theorem comment_gate (h : Gate w t) : CommentIn w s := by
  cases h with
  | comment h =>
    refine ⟨w, List.infix_rfl, ?_⟩
    obtain ⟨hrule, hshaped⟩ := shaped_comment h
    cases hs with
    | self => exact h
    | part hu hin =>
      cases hrule
      have hparts : ∀ r ∈ Rule.partRules .comment, r ∉ commentRules := by decide
      have hpart := hparts _ (hshaped.shape.part_rule hu)
      exact absurd hcomment (rule_ne_comment (hshaped.part _ hu) rfl hpart hin)
  | qgate h => exact absurd hcomment (rule_ne_comment (shaped_qgate h).2 (shaped_qgate h).1 (by decide) hs)
  | qrot h => exact absurd hcomment (rule_ne_comment (shaped_qrot h).2 (shaped_qrot h).1 (by decide) hs)
  | qinit h => exact absurd hcomment (rule_ne_comment (shaped_qinit h).2 (shaped_qinit h).1 (by decide) hs)
  | call h => exact absurd hcomment (rule_ne_comment (shaped_call h).2 (shaped_call h).1 (by decide) hs)

theorem comment_circuit (h : Circuit w t) : CommentIn w s := by
  have hdeclarations {u : Tree} (hu : u.rule = .ioStatement ∧ u.WellShaped) (hin : Within s u) : CommentIn w s :=
    absurd hcomment (rule_ne_comment hu.2 hu.1 (by decide) hin)
  cases h with
  | @intro nl i inputs ls gates nl' o outputs hnl hi hls hnl' hne ho =>
    rcases within_node.mp hs with rfl | ⟨u, hu, hin⟩
    · cases hcomment
    · rw [List.cons_append, List.mem_cons, List.mem_append, List.mem_singleton] at hu
      rcases hu with rfl | hu | rfl
      · exact hdeclarations (shaped_declarations (by simp) hi) hin
      · obtain ⟨v, hv, hsub⟩ := lines_infix hls u hu
        refine (comment_gate hin hcomment hv).mono (hsub.trans ⟨nl ++ i, nl' ++ o, ?_⟩)
        simp only [List.append_assoc]
      · exact hdeclarations (shaped_declarations (by simp) ho) hin

theorem comment_subroutine (h : Subroutine w t) : CommentIn w s := by
  have hleaf {tok : Token} (hin : Within s (.leaf tok)) : CommentIn w s :=
    absurd hcomment (rule_ne_comment (Tree.wellShaped_leaf tok) (Tree.rule_leaf tok) (by decide) hin)
  cases h with
  | intro _ _ _ _ _ _ _ _ _ _ hbody =>
    rcases within_node.mp hs with rfl | ⟨u, hu, hin⟩
    · cases hcomment
    · simp only [List.mem_cons, List.not_mem_nil, or_false] at hu
      rcases hu with rfl | rfl | rfl | rfl
      · exact hleaf hin
      · exact hleaf hin
      · exact hleaf hin
      · exact (comment_circuit hin hcomment hbody).mono (List.suffix_append _ _).isInfix

theorem comment_program (h : Program w t) : CommentIn w s := by
  cases h with
  | intro hmain hls =>
    rcases within_node.mp hs with rfl | ⟨u, hu, hin⟩
    · cases hcomment
    · rcases List.mem_cons.mp hu with rfl | hu
      · exact (comment_circuit hin hcomment hmain).mono (List.prefix_append _ _).isInfix
      · obtain ⟨v, hv, hsub⟩ := lines_infix hls u hu
        exact (comment_subroutine hin hcomment hv).mono (hsub.trans (List.suffix_append _ _).isInfix)

theorem comment_derives {rule : Rule} (h : Derives rule w t) : CommentIn w s := by
  obtain ⟨hroot, hshaped⟩ := shaped_derives h
  have other (hne : rule ≠ .gate) (hnone : rule ∉ commentRules) : CommentIn w s := by
    rw [rootRules, if_neg hne, List.mem_singleton] at hroot
    exact absurd hcomment (rule_ne_comment hshaped hroot hnone hs)
  cases rule with
  | program => exact comment_program hs hcomment h
  | circuit => exact comment_circuit hs hcomment h
  | subroutine => exact comment_subroutine hs hcomment h
  | gate => exact comment_gate hs hcomment h
  | comment => exact comment_gate hs hcomment (.comment h)
  | unknown => exact absurd h id
  | _ => exact other (by decide) (by decide)

end

theorem filter_integers {ps : List (Token × Token)} (h : ∀ p ∈ ps, p.1.kind = .integer ∧ p.2.kind = .string) :
    (ps.flatMap fun p => [p.1, p.2]).filter (·.kind = .integer) = ps.map Prod.fst := by
  induction ps with
  | nil => rfl
  | cons p ps ih =>
    obtain ⟨⟨hwire, hlabel⟩, hps⟩ := List.forall_mem_cons.mp h
    simp [hwire, hlabel, ih hps]

theorem wires_labels {ps : List (Token × Token)} (h : Labels w ps) :
    w.filter (·.kind = .integer) = ps.map Prod.fst := by
  obtain ⟨hparts, hkinds⟩ := filter_labels h
  rw [← filter_integers hkinds, ← hparts, List.filter_filter]
  refine List.filter_congr fun t _ => ?_
  simpa [isLabelPart] using Or.inl

theorem comment_read (h : Comment w t) : ∃ text ps, CommentRead w text ps t := by
  cases h with
  | @intro opening text close left v ps right hopening htext hclose hleft hlabels hright =>
    refine ⟨text, ps, ⟨_, rfl, rfl, Tree.length_labelParts ps⟩, ?_, fun g hg => ?_⟩
    · have hopening := (is_iff.mp hopening).1
      have hclose := (is_iff.mp hclose).1
      have hleft := (is_iff.mp hleft).1
      have hright := (is_iff.mp hright).1
      simp [hopening, htext, hclose, hleft, hright, ← wires_labels hlabels]
    · simp only [Tree.toGate, Tree.toWireLabels_flat] at hg
      obtain ⟨ls, hls, hg⟩ := Tree.bind_eq_ok.mp hg
      cases hg
      exact ⟨ls, rfl, Tree.forall₂_of_mapM hls⟩

theorem tokens_derives {rule : Rule} (h : Derives rule w t) : t.tokens ⊆ w := by
  cases rule with
  | program => exact tokens_program h
  | circuit => exact tokens_circuit h
  | ioStatement => exact h.elim tokens_declarations tokens_declarations
  | arity =>
    obtain ⟨hitems⟩ := h
    refine node_subset.mpr ⟨by simp, fun item hitem => ?_⟩
    obtain ⟨v, hv, hsub⟩ := (separated_mem hitems).2 item hitem
    exact List.Subset.trans (tokens_typeAssignment hv) hsub
  | typeAssignment => exact tokens_typeAssignment h
  | gate => exact tokens_gate h
  | qgate => exact tokens_gate (.qgate h)
  | qrot => exact tokens_gate (.qrot h)
  | qinit => exact tokens_gate (.qinit h)
  | comment => exact tokens_comment h
  | wire =>
    obtain ⟨⟨-, -, -⟩⟩ := h
    simp [node_subset, leaf_subset]
  | subroutineCall => exact tokens_call h
  | intList =>
    obtain ⟨hwires⟩ := h
    exact node_subset.mpr ⟨by simp, leaves_subset (tokens_integers hwires)⟩
  | controlApp => exact tokens_controlApp h
  | subroutine => exact tokens_subroutine h
  | inversion | repetition | wireLabelList | signedList | terminal | unknown => exact absurd h id

end Grammar

theorem derives_of_tree {rule : Rule} {file text : Bytes} {t : Tree} (h : Source.tree rule file text = .ok t) :
    rule.isEntry ∧ ∃ ts w, Token.lex file text = .ok ts ∧ w <:+: ts ∧ Grammar.Derives rule w t := by
  obtain ⟨hentry, ts, hlex, hparse⟩ := ruleTree_eq_ok.mp h
  obtain ⟨u, eof, rfl, heof, hu⟩ := Token.lex_ok hlex
  obtain ⟨before, w, after, rfl, -, -, hw⟩ :=
    Grammar.derives_of_parseTokens hentry heof (fun t ht => (hu t ht).1) hparse
  exact ⟨hentry, _, w, hlex, ⟨before, after ++ [eof], by simp⟩, hw⟩

theorem spells_of_derives {rule : Rule} {file text : Bytes} {ts w : List Token} {t : Tree}
    (hlex : Token.lex file text = .ok ts) (hin : w <:+: ts) (h : Grammar.Derives rule w t) :
    ∀ tok ∈ t.tokens, tok.kind.Spells tok.text :=
  fun tok htok => Token.spells_of_lex hlex tok (hin.subset (Grammar.tokens_derives h htok))

/-- What the reading of values relies on in a tree of the rule whose tokens are among these. -/
structure Readable (rule : Rule) (ts : List Token) (t : Tree) : Prop where
  root : t.rule ∈ Grammar.rootRules rule
  shaped : t.WellShaped
  spelled : ∀ tok ∈ t.tokens, tok.kind.Spells tok.text
  placed : ∀ strict, Placed (Source.valueOfTree rule strict t)
  comments : ∀ s, Tree.Within s t → s.rule = .comment →
    ∃ v text ps, v <:+: ts ∧ Grammar.Comment v s ∧ Tree.CommentRead v text ps s

/-- Every tree that a text has is readable: whatever else its value may be refused for, it is not for its form. -/
theorem readable_of_tree (rule : Rule) (file text : Bytes) (t : Tree) (h : Source.tree rule file text = .ok t) :
    ∃ ts, Token.lex file text = .ok ts ∧ Readable rule ts t := by
  obtain ⟨hentry, ts, w, hlex, hin, hw⟩ := derives_of_tree h
  obtain ⟨hroot, hshaped⟩ := Grammar.shaped_derives hw
  refine ⟨ts, hlex, hroot, hshaped, spells_of_derives hlex hin hw,
    fun strict => placed_valueOfTree strict hshaped hroot hentry, fun s hs hcomment => ?_⟩
  obtain ⟨v, hv, hderives⟩ := Grammar.comment_derives hs hcomment hw
  obtain ⟨text, ps, hread⟩ := Grammar.comment_read hderives
  exact ⟨v, text, ps, hv.trans hin, hderives, hread⟩

def twiceLabelled : Bytes := Bytes.unlines ["Comment[\"ENTER\"](0:\"q[0]\", 0:\"QGate[\", 1:\"\")"]

theorem readable_of_twiceLabelled : ∃ t, Source.tree .gate "labels" twiceLabelled = .ok t ∧
    ∃ ts, Token.lex "labels" twiceLabelled = .ok ts ∧ Readable .gate ts t := by
  have hok : (Source.tree .gate "labels" twiceLabelled).toBool = true := by decide +kernel
  cases h : Source.tree .gate "labels" twiceLabelled with
  | error e =>
    rw [h] at hok
    cases hok
  | ok t => exact ⟨t, rfl, readable_of_tree _ _ _ t h⟩

end CircuitDesk
