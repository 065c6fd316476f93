import CircuitDesk.Proofs.Grammar.Lacking

namespace CircuitDesk.Grammar

open Token (Kind)
open CircuitDesk.Tree.Reading

def isLabelPart (t : Token) : Bool := t.kind = .integer || t.kind = .string

def isStar (t : Token) : Bool := t.is .punctuation "*"

theorem isLabelPart_of_is {t : Token} {k : Kind} {s : Bytes} (h : t.is k s) (hk : k ≠ .integer)
    (hk' : k ≠ .string) : isLabelPart t = false := by
  simp [isLabelPart, (is_iff.mp h).1, hk, hk']

theorem filter_labelledWire {w : List Token} {p : Token × Token} (h : LabelledWire w p) :
    w.filter isLabelPart = [p.1, p.2] ∧ p.1.kind = .integer ∧ p.2.kind = .string := by
  cases h with
  | intro hwire hcolon hlabel =>
    refine ⟨?_, hwire, hlabel⟩
    rw [List.filter_cons_of_pos (by simp [isLabelPart, hwire]),
      List.filter_cons_of_neg (by simp [isLabelPart_of_is hcolon]),
      List.filter_cons_of_pos (by simp [isLabelPart, hlabel]), List.filter_nil]

theorem filter_labels {w : List Token} {ps : List (Token × Token)} (h : Labels w ps) :
    w.filter isLabelPart = ps.flatMap (fun p => [p.1, p.2]) ∧
      ∀ p ∈ ps, p.1.kind = .integer ∧ p.2.kind = .string := by
  cases h with
  | none => simp
  | some h =>
    induction h with
    | one h =>
      obtain ⟨hf, hk⟩ := filter_labelledWire h
      simpa [hf] using hk
    | cons h hc _ ih =>
      obtain ⟨hf, hk⟩ := filter_labelledWire h
      rw [List.filter_append, hf, List.filter_cons_of_neg (by simp [isLabelPart_of_is hc]), ih.1]
      exact ⟨rfl, List.forall_mem_cons.mpr ⟨hk, ih.2⟩⟩

theorem comment_labels {w : List Token} {t : Tree} (h : Comment w t) :
    ∃ opening text rest, ∃ pairs : List (Token × Token), w = opening :: text :: rest ∧
      rest.filter isLabelPart = pairs.flatMap (fun p => [p.1, p.2]) ∧
      (∀ p ∈ pairs, p.1.kind = .integer ∧ p.2.kind = .string) ∧
      t = .node .comment (some opening)
        [.leaf text, .node .wireLabelList none ((rest.filter isLabelPart).map .leaf)] := by
  obtain ⟨hopening, htext, hclose, hleft, hlabels, hright⟩ := h
  rename_i opening text close left w labels right
  obtain ⟨hf, hk⟩ := filter_labels hlabels
  have hrest : (close :: left :: w ++ [right]).filter isLabelPart = labels.flatMap fun p => [p.1, p.2] := by
    rw [List.cons_append, List.cons_append, List.filter_cons_of_neg (by simp [isLabelPart_of_is hclose]),
      List.filter_cons_of_neg (by simp [isLabelPart_of_is hleft]), List.filter_append,
      List.filter_cons_of_neg (by simp [isLabelPart_of_is hright]), List.filter_nil, List.append_nil, hf]
  refine ⟨opening, text, close :: left :: w ++ [right], labels, rfl, hrest, hk, ?_⟩
  rw [hrest, List.map_flatMap]
  rfl

def NoStars (w : List Token) : Prop := ∀ t ∈ w, isStar t = false

theorem filter_noStars {w : List Token} (h : NoStars w) : w.filter isStar = [] :=
  List.filter_eq_nil_iff.mpr fun t ht => by simp [h t ht]

theorem filter_stars {w : List Token} {ts : List Tree} (h : Stars w ts) :
    (w.filter isStar).map .leaf = ts := by
  cases h with
  | absent => rfl
  | @present t h =>
    have hs : isStar t = true := h
    rw [List.filter_cons_of_pos hs]
    rfl

theorem call_stars {w : List Token} {t : Tree} (h : SubroutineCall w t) :
    ∃ opening count name shape inputs outputs control, t = .node .subroutineCall (some opening)
      [count, .leaf name, .leaf shape, .node .inversion none ((w.filter isStar).map .leaf), inputs, outputs,
        control] := by
  obtain ⟨hopening, hcount, hstars, hleft, hname, hcomma, hsw, hshape, hright, hstars', hinputs, harrow,
    houtputs, hcontrol⟩ := h
  rename_i opening r count s stars left name comma shapeWord shape right s' stars' i inputs arrow o outputs
    c control
  refine ⟨opening, .node .repetition none count, name, shape, inputs, outputs, control, ?_⟩
  have head : NoStars (left :: name :: comma :: shapeWord :: shape :: [right]) := by
    simp only [NoStars, List.forall_mem_cons]
    exact ⟨other_word counted_star hleft (by decide), other_kind counted_star hname (by decide),
      other_word counted_star hcomma (by decide), other_word counted_star hsw (by decide),
      other_kind counted_star hshape (by decide), other_word counted_star hright (by decide), lacks_nil⟩
  have hw : opening :: r ++ s ++ left :: name :: comma :: shapeWord :: shape :: right :: s' ++ i ++
      arrow :: o ++ c = [opening] ++ r ++ s ++ [left, name, comma, shapeWord, shape, right] ++ s' ++ i ++
        [arrow] ++ o ++ c := by simp
  have first : NoStars [opening] := lacks_cons.mpr ⟨is_eq_false hopening (by decide), lacks_nil⟩
  have mid : NoStars [arrow] := lacks_cons.mpr ⟨other_kind counted_star harrow (by decide), lacks_nil⟩
  rw [hw]
  simp only [List.filter_append, filter_noStars first, filter_noStars (lacks_repetition counted_star hcount),
    filter_noStars head, filter_noStars (lacks_wiresInParens counted_star hinputs), filter_noStars mid,
    filter_noStars (lacks_wiresInParens counted_star houtputs),
    filter_noStars (lacks_callControl counted_star hcontrol),
    List.nil_append, List.append_nil, List.map_append, filter_stars hstars, filter_stars hstars']

end CircuitDesk.Grammar
