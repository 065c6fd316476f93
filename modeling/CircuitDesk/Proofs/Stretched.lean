import CircuitDesk.Proofs.Places

/-!
The grammar does not look at where tokens stand, nor at how many newlines part two lines. A word whose tokens are moved
and whose newlines are repeated is a word of the same rule, and its tree is the same but for the places.
-/
namespace CircuitDesk.Grammar

open Token (Kind)
open CircuitDesk.Tree (unplaced unplacedOf unplacedOf_eq)
open CircuitDesk.Tree.Reading (Newlines Lines Phrase Separated isNewline isComma)

inductive Stretched : List Token → List Token → Prop
  | nil : Stretched [] []
  | token {t t' : Token} {w w' : List Token} : t'.unplaced = t.unplaced → Stretched w w' →
      Stretched (t :: w) (t' :: w')
  | newlines {t : Token} {nl w w' : List Token} : isNewline t → Newlines nl → nl ≠ [] → Stretched w w' →
      Stretched (t :: w) (nl ++ w')

namespace Stretched

theorem kind_of_unplaced {t t' : Token} (h : t'.unplaced = t.unplaced) : t'.kind = t.kind :=
  (congrArg Token.kind h :)

theorem is_of_unplaced {t t' : Token} {k : Kind} {s : Bytes} (h : t'.unplaced = t.unplaced) (ht : t.is k s) :
    t'.is k s := by
  obtain ⟨hk, hs⟩ := is_iff.mp ht
  exact is_iff.mpr ⟨(kind_of_unplaced h).trans hk, (congrArg Token.text h :).trans hs⟩

theorem append_inv {u v w' : List Token} (h : Stretched (u ++ v) w') :
    ∃ u' v', w' = u' ++ v' ∧ Stretched u u' ∧ Stretched v v' := by
  induction u generalizing w' with
  | nil => exact ⟨[], w', rfl, .nil, h⟩
  | cons t u ih =>
    cases h with
    | token ht h =>
      obtain ⟨u', v', rfl, hu, hv⟩ := ih h
      exact ⟨_ :: u', v', rfl, .token ht hu, hv⟩
    | newlines ht hnl hne h =>
      obtain ⟨u', v', rfl, hu, hv⟩ := ih h
      exact ⟨_ ++ u', v', (List.append_assoc ..).symm, .newlines ht hnl hne hu, hv⟩

theorem nil_inv {w' : List Token} (h : Stretched [] w') : w' = [] := by
  cases h
  rfl

theorem cons_inv {t : Token} {w w' : List Token} (h : Stretched (t :: w) w') (ht : isNewline t = false) :
    ∃ t' v', w' = t' :: v' ∧ t'.unplaced = t.unplaced ∧ Stretched w v' := by
  cases h with
  | token ht h => exact ⟨_, _, rfl, ht, h⟩
  | newlines hnewline => simp [ht] at hnewline

theorem is_inv {t : Token} {w w' : List Token} {k : Kind} {s : Bytes} (h : Stretched (t :: w) w') (ht : t.is k s)
    (hk : k ≠ .newline) : ∃ t' v', w' = t' :: v' ∧ t'.unplaced = t.unplaced ∧ t'.is k s ∧ Stretched w v' := by
  obtain ⟨t', v', rfl, heq, h⟩ := h.cons_inv (not_newline_of_is ht hk)
  exact ⟨t', v', rfl, heq, is_of_unplaced heq ht, h⟩

theorem kind_inv {t : Token} {w w' : List Token} {k : Kind} (h : Stretched (t :: w) w') (ht : t.kind = k)
    (hk : k ≠ .newline) : ∃ t' v', w' = t' :: v' ∧ t'.unplaced = t.unplaced ∧ t'.kind = k ∧ Stretched w v' := by
  obtain ⟨t', v', rfl, heq, h⟩ := h.cons_inv (by simpa [isNewline, ht] using hk)
  exact ⟨t', v', rfl, heq, (kind_of_unplaced heq).trans ht, h⟩

theorem newlines_inv {nl w' : List Token} (h : Stretched nl w') (hnl : Newlines nl) :
    Newlines w' ∧ (nl ≠ [] → w' ≠ []) := by
  induction h with
  | nil => exact ⟨hnl, id⟩
  | @token t t' w w' ht h ih =>
    obtain ⟨hfirst, hlater⟩ := List.forall_mem_cons.mp hnl
    have hfirst' : isNewline t' := by rwa [isNewline, kind_of_unplaced ht]
    exact ⟨List.forall_mem_cons.mpr ⟨hfirst', (ih hlater).1⟩, fun _ => List.cons_ne_nil _ _⟩
  | newlines ht hnl' hne h ih =>
    obtain ⟨-, hlater⟩ := List.forall_mem_cons.mp hnl
    exact ⟨hnl'.append (ih hlater).1, fun _ => List.append_ne_nil_of_left_ne_nil hne _⟩

end Stretched

open Stretched (is_of_unplaced)

/-- Words that are stretched stand for the same, up to what `view` does not show. -/
def Stretches {α β : Type} (L : Phrase α) (view : α → β) : Prop :=
  ∀ {w a w'}, L w a → Stretched w w' → ∃ a', L w' a' ∧ view a' = view a

section

variable {α β : Type} {L : Phrase α} {view : α → β}

theorem stretches_separated (hL : Stretches L view) : Stretches (Separated L) (List.map view) := by
  intro w as w' has
  induction has generalizing w' with
  | one ha =>
    intro h
    obtain ⟨a', ha', hview⟩ := hL ha h
    exact ⟨[a'], .one ha', by rw [List.map_singleton, List.map_singleton, hview]⟩
  | cons ha hcomma _ ih =>
    intro h
    obtain ⟨u', _, rfl, hu, h⟩ := h.append_inv
    obtain ⟨comma', v', rfl, -, hcomma', h⟩ := h.is_inv hcomma (by decide)
    obtain ⟨a', ha', hview⟩ := hL ha hu
    obtain ⟨as', has', hviews⟩ := ih h
    exact ⟨a' :: as', .cons ha' hcomma' has', by rw [List.map_cons, List.map_cons, hview, hviews]⟩

theorem stretches_lines (hL : Stretches L view) : Stretches (Lines L) (List.map view) := by
  intro w as w' has
  induction has generalizing w' with
  | nil =>
    intro h
    rw [h.nil_inv]
    exact ⟨[], .nil, rfl⟩
  | cons hnl hne ha _ ih =>
    intro h
    obtain ⟨_, v', rfl, h, hv⟩ := h.append_inv
    obtain ⟨nl', u', rfl, hnl', hu⟩ := h.append_inv
    obtain ⟨hnewlines, hne'⟩ := hnl'.newlines_inv hnl
    obtain ⟨a', ha', hview⟩ := hL ha hu
    obtain ⟨as', has', hviews⟩ := ih hv
    exact ⟨a' :: as', .cons hnewlines (hne' hne) ha' has', by rw [List.map_cons, List.map_cons, hview, hviews]⟩

end

theorem stretches_integer : Stretches Integer Token.unplaced := by
  rintro _ t w' ⟨rfl, ht⟩ h
  obtain ⟨t', _, rfl, heq, ht', h⟩ := h.kind_inv (of_decide_eq_true ht) (by decide)
  rw [h.nil_inv]
  exact ⟨t', ⟨rfl, decide_eq_true ht'⟩, heq⟩

theorem stretches_integers : Stretches Integers (List.map Token.unplaced) := by
  intro w ts w' hts h
  cases hts with
  | none =>
    rw [h.nil_inv]
    exact ⟨[], .none, rfl⟩
  | some hts =>
    obtain ⟨ts', hts', hview⟩ := stretches_separated stretches_integer hts h
    exact ⟨ts', .some hts', hview⟩

theorem stretches_stars : Stretches Stars (List.map unplaced) := by
  intro w ts w' hts h
  cases hts with
  | absent =>
    rw [h.nil_inv]
    exact ⟨[], .absent, rfl⟩
  | present hstar =>
    obtain ⟨t', _, rfl, heq, hstar', h⟩ := h.is_inv hstar (by decide)
    rw [h.nil_inv]
    exact ⟨[.leaf t'], .present hstar', by simp [unplaced, heq]⟩

theorem kind_of_either {t : Token} {k : Kind} {s s' : Bytes} (h : t.is k s ∨ t.is k s') : t.kind = k :=
  h.elim (fun h => (is_iff.mp h).1) fun h => (is_iff.mp h).1

theorem stretches_typeAssignment : Stretches TypeAssignment unplaced := by
  rintro _ _ w' ⟨hwire, hcolon, htype⟩ h
  obtain ⟨wire', _, rfl, hw, hwire', h⟩ := h.kind_inv hwire (by decide)
  obtain ⟨colon', _, rfl, -, hcolon', h⟩ := h.is_inv hcolon (by decide)
  obtain ⟨type', _, rfl, ht, -, h⟩ := h.kind_inv (kind_of_either htype) (by decide)
  rw [h.nil_inv]
  exact ⟨_, .intro hwire' hcolon' (htype.imp (is_of_unplaced ht) (is_of_unplaced ht)),
    by simp [unplaced, unplacedOf, hw, ht]⟩

theorem stretches_arity : Stretches Arity unplaced := by
  rintro _ _ w' ⟨hitems⟩ h
  obtain ⟨items', hitems', hview⟩ := stretches_separated stretches_typeAssignment hitems h
  exact ⟨_, .intro hitems', by simp [unplaced, unplacedOf_eq, hview]⟩

theorem stretches_declarations (word : Bytes) : Stretches (Declarations word) unplaced := by
  rintro _ _ w' ⟨hdirection, hcolon, hlist⟩ h
  obtain ⟨direction', _, rfl, hd, hdirection', h⟩ := h.is_inv hdirection (by decide)
  obtain ⟨colon', _, rfl, -, hcolon', h⟩ := h.is_inv hcolon (by decide)
  obtain ⟨list', hlist', hview⟩ := stretches_arity hlist h
  exact ⟨_, .intro hdirection' hcolon' hlist', by simp [unplaced, unplacedOf, hd, hview]⟩

theorem stretches_ioStatement : Stretches IoStatement unplaced := by
  rintro w t w' (ht | ht) h
  · obtain ⟨t', ht', hview⟩ := stretches_declarations _ ht h
    exact ⟨t', .inl ht', hview⟩
  · obtain ⟨t', ht', hview⟩ := stretches_declarations _ ht h
    exact ⟨t', .inr ht', hview⟩

theorem unplacedOf_leaves (ts : List Token) : unplacedOf (ts.map .leaf) = (ts.map Token.unplaced).map .leaf := by
  simp [unplacedOf_eq, unplaced]

theorem stretches_intList : Stretches IntList unplaced := by
  rintro _ _ w' ⟨hts⟩ h
  obtain ⟨ts', hts', hview⟩ := stretches_integers hts h
  exact ⟨_, .intro hts', by simp [unplaced, unplacedOf_leaves, hview]⟩

theorem stretches_controlApp : Stretches ControlApp unplaced := by
  intro w t w' ht h
  cases ht with
  | none hword =>
    obtain ⟨word', _, rfl, hw, hword', h⟩ := h.is_inv hword (by decide)
    rw [h.nil_inv]
    exact ⟨_, .none hword', by simp [unplaced, unplacedOf, hw]⟩
  | list hopening hrefs hclose =>
    obtain ⟨opening', _, rfl, ho, hopening', h⟩ := h.is_inv hopening (by decide)
    obtain ⟨r', _, rfl, hr, h⟩ := h.append_inv
    obtain ⟨close', _, rfl, -, hclose', h⟩ := h.is_inv hclose (by decide)
    obtain ⟨refs', hrefs', hview⟩ := stretches_integers hrefs hr
    rw [h.nil_inv]
    exact ⟨_, .list hopening' hrefs' hclose', by simp [unplaced, unplacedOf, unplacedOf_leaves, ho, hview]⟩
  | listOnly hopening hrefs hclose hwith hword =>
    obtain ⟨opening', _, rfl, ho, hopening', h⟩ := h.is_inv hopening (by decide)
    obtain ⟨r', _, rfl, hr, h⟩ := h.append_inv
    obtain ⟨close', _, rfl, -, hclose', h⟩ := h.is_inv hclose (by decide)
    obtain ⟨with', _, rfl, -, hwith', h⟩ := h.is_inv hwith (by decide)
    obtain ⟨word', _, rfl, hw, hword', h⟩ := h.is_inv hword (by decide)
    obtain ⟨refs', hrefs', hview⟩ := stretches_integers hrefs hr
    rw [h.nil_inv]
    exact ⟨_, .listOnly hopening' hrefs' hclose' hwith' hword',
      by simp [unplaced, unplacedOf, unplacedOf_leaves, ho, hview, hw]⟩

theorem stretches_qgate : Stretches QGate unplaced := by
  rintro _ _ w' ⟨hopening, hname, hclose, hstars, hleft, hwire, hright, hwith, hcontrol⟩ h
  simp only [List.cons_append] at h
  obtain ⟨opening', _, rfl, ho, hopening', h⟩ := h.is_inv hopening (by decide)
  obtain ⟨name', _, rfl, hn, hname', h⟩ := h.kind_inv hname (by decide)
  obtain ⟨close', _, rfl, -, hclose', h⟩ := h.is_inv hclose (by decide)
  obtain ⟨s', _, rfl, hs, h⟩ := h.append_inv
  obtain ⟨left', _, rfl, -, hleft', h⟩ := h.is_inv hleft (by decide)
  obtain ⟨wire', _, rfl, hw, hwire', h⟩ := h.kind_inv hwire (by decide)
  obtain ⟨right', _, rfl, -, hright', h⟩ := h.is_inv hright (by decide)
  obtain ⟨with', _, rfl, -, hwith', h⟩ := h.is_inv hwith (by decide)
  obtain ⟨stars', hstars', hsview⟩ := stretches_stars hstars hs
  obtain ⟨control', hcontrol', hcview⟩ := stretches_controlApp hcontrol h
  exact ⟨_, .intro hopening' hname' hclose' hstars' hleft' hwire' hright' hwith' hcontrol',
    by simp [unplaced, unplacedOf, unplacedOf_eq, ho, hn, hw, hsview, hcview]⟩

theorem stretches_qrot : Stretches QRot unplaced := by
  rintro _ _ w' ⟨hopening, hname, hcomma, hstep, hclose, hstars, hleft, hwire, hright⟩ h
  simp only [List.cons_append] at h
  obtain ⟨opening', _, rfl, ho, hopening', h⟩ := h.is_inv hopening (by decide)
  obtain ⟨name', _, rfl, hn, hname', h⟩ := h.kind_inv hname (by decide)
  obtain ⟨comma', _, rfl, -, hcomma', h⟩ := h.is_inv hcomma (by decide)
  obtain ⟨step', _, rfl, ht, hstep', h⟩ := h.kind_inv hstep (by decide)
  obtain ⟨close', _, rfl, -, hclose', h⟩ := h.is_inv hclose (by decide)
  obtain ⟨s', _, rfl, hs, h⟩ := h.append_inv
  obtain ⟨left', _, rfl, -, hleft', h⟩ := h.is_inv hleft (by decide)
  obtain ⟨wire', _, rfl, hw, hwire', h⟩ := h.kind_inv hwire (by decide)
  obtain ⟨right', _, rfl, -, hright', h⟩ := h.is_inv hright (by decide)
  obtain ⟨stars', hstars', hsview⟩ := stretches_stars hstars hs
  rw [h.nil_inv]
  exact ⟨_, .intro hopening' hname' hcomma' hstep' hclose' hstars' hleft' hwire' hright',
    by simp [unplaced, unplacedOf, unplacedOf_eq, ho, hn, ht, hw, hsview]⟩

theorem stretches_initTarget : Stretches InitTarget unplaced := by
  intro w t w' ht h
  cases ht with
  | bare hwire =>
    obtain ⟨wire', _, rfl, hw, hwire', h⟩ := h.kind_inv hwire (by decide)
    rw [h.nil_inv]
    exact ⟨_, .bare hwire', by simp [unplaced, hw]⟩
  | labelled hwire hcolon hlabel =>
    obtain ⟨wire', _, rfl, hw, hwire', h⟩ := h.kind_inv hwire (by decide)
    obtain ⟨colon', _, rfl, -, hcolon', h⟩ := h.is_inv hcolon (by decide)
    obtain ⟨label', _, rfl, hl, hlabel', h⟩ := h.kind_inv hlabel (by decide)
    rw [h.nil_inv]
    exact ⟨_, .labelled hwire' hcolon' hlabel', by simp [unplaced, unplacedOf, hw, hl]⟩

theorem stretches_qinit : Stretches QInit unplaced := by
  rintro _ _ w' ⟨hword, hleft, htarget, hright, hwith, hcontrol⟩ h
  simp only [List.cons_append] at h
  obtain ⟨word', _, rfl, hw, -, h⟩ := h.kind_inv (kind_of_either hword) (by decide)
  obtain ⟨left', _, rfl, -, hleft', h⟩ := h.is_inv hleft (by decide)
  obtain ⟨t', _, rfl, ht, h⟩ := h.append_inv
  obtain ⟨right', _, rfl, -, hright', h⟩ := h.is_inv hright (by decide)
  obtain ⟨with', _, rfl, -, hwith', h⟩ := h.is_inv hwith (by decide)
  obtain ⟨control', _, rfl, -, hcontrol', h⟩ := h.is_inv hcontrol (by decide)
  obtain ⟨target', htarget', hview⟩ := stretches_initTarget htarget ht
  rw [h.nil_inv]
  exact ⟨_, .intro (hword.imp (is_of_unplaced hw) (is_of_unplaced hw)) hleft' htarget' hright' hwith' hcontrol',
    by simp [unplaced, unplacedOf, hw, hview]⟩

theorem stretches_labelledWire : Stretches LabelledWire fun p => (p.1.unplaced, p.2.unplaced) := by
  rintro _ _ w' ⟨hwire, hcolon, hlabel⟩ h
  obtain ⟨wire', _, rfl, hw, hwire', h⟩ := h.kind_inv hwire (by decide)
  obtain ⟨colon', _, rfl, -, hcolon', h⟩ := h.is_inv hcolon (by decide)
  obtain ⟨label', _, rfl, hl, hlabel', h⟩ := h.kind_inv hlabel (by decide)
  rw [h.nil_inv]
  exact ⟨_, .intro hwire' hcolon' hlabel', Prod.ext hw hl⟩

theorem stretches_wire : Stretches Wire unplaced := by
  rintro _ _ w' ⟨hp⟩ h
  obtain ⟨p', hp', hview⟩ := stretches_labelledWire hp h
  obtain ⟨hw, hl⟩ := Prod.mk.inj hview
  exact ⟨_, .intro hp', by simp [unplaced, unplacedOf, hw, hl]⟩

theorem stretches_labels : Stretches Labels (List.map fun p => (p.1.unplaced, p.2.unplaced)) := by
  intro w ps w' hps h
  cases hps with
  | none =>
    rw [h.nil_inv]
    exact ⟨[], .none, rfl⟩
  | some hps =>
    obtain ⟨ps', hps', hview⟩ := stretches_separated stretches_labelledWire hps h
    exact ⟨ps', .some hps', hview⟩

theorem unplacedOf_labels (ps : List (Token × Token)) :
    unplacedOf (ps.flatMap fun (w, l) => [.leaf w, .leaf l]) =
      (ps.map fun p => (p.1.unplaced, p.2.unplaced)).flatMap fun (w, l) => [.leaf w, .leaf l] := by
  rw [unplacedOf_eq, List.map_flatMap, List.flatMap_map]
  simp [unplaced]

theorem stretches_comment : Stretches Comment unplaced := by
  rintro _ _ w' ⟨hopening, htext, hclose, hleft, hlabels, hright⟩ h
  simp only [List.cons_append] at h
  obtain ⟨opening', _, rfl, ho, hopening', h⟩ := h.is_inv hopening (by decide)
  obtain ⟨text', _, rfl, ht, htext', h⟩ := h.kind_inv htext (by decide)
  obtain ⟨close', _, rfl, -, hclose', h⟩ := h.is_inv hclose (by decide)
  obtain ⟨left', _, rfl, -, hleft', h⟩ := h.is_inv hleft (by decide)
  obtain ⟨l', _, rfl, hl, h⟩ := h.append_inv
  obtain ⟨right', _, rfl, -, hright', h⟩ := h.is_inv hright (by decide)
  obtain ⟨labels', hlabels', hview⟩ := stretches_labels hlabels hl
  rw [h.nil_inv]
  refine ⟨_, .intro hopening' htext' hclose' hleft' hlabels' hright', ?_⟩
  rw [unplaced, unplaced]
  simp only [unplacedOf, unplaced, unplacedOf_labels, ho, ht, hview, Option.map_some]

theorem stretches_repetition : Stretches Repetition (List.map unplaced) := by
  intro w ts w' hts h
  cases hts with
  | absent =>
    rw [h.nil_inv]
    exact ⟨[], .absent, rfl⟩
  | present hleft hcount hright =>
    obtain ⟨left', _, rfl, -, hleft', h⟩ := h.is_inv hleft (by decide)
    obtain ⟨count', _, rfl, hc, hcount', h⟩ := h.kind_inv hcount (by decide)
    obtain ⟨right', _, rfl, -, hright', h⟩ := h.is_inv hright (by decide)
    rw [h.nil_inv]
    exact ⟨_, .present hleft' hcount' hright', by simp [unplaced, hc]⟩

theorem stretches_wiresInParens : Stretches WiresInParens unplaced := by
  rintro _ _ w' ⟨hleft, hlist, hright⟩ h
  simp only [List.cons_append] at h
  obtain ⟨left', _, rfl, -, hleft', h⟩ := h.is_inv hleft (by decide)
  obtain ⟨l', _, rfl, hl, h⟩ := h.append_inv
  obtain ⟨right', _, rfl, -, hright', h⟩ := h.is_inv hright (by decide)
  obtain ⟨list', hlist', hview⟩ := stretches_intList hlist hl
  rw [h.nil_inv]
  exact ⟨list', .intro hleft' hlist' hright', hview⟩

theorem stretches_callControl : Stretches CallControl unplaced := by
  intro w t w' ht h
  cases ht with
  | absent =>
    rw [h.nil_inv]
    exact ⟨_, .absent, rfl⟩
  | present hwith hcontrol =>
    obtain ⟨with', _, rfl, -, hwith', h⟩ := h.is_inv hwith (by decide)
    obtain ⟨control', hcontrol', hview⟩ := stretches_controlApp hcontrol h
    exact ⟨control', .present hwith' hcontrol', hview⟩

theorem stretches_subroutineCall : Stretches SubroutineCall unplaced := by
  rintro _ _ w' ⟨hopening, hcount, hstars, hleft, hname, hcomma, hsw, hshape, hright, hstars', hinputs, harrow,
    houtputs, hcontrol⟩ h
  simp only [List.cons_append, List.append_assoc] at h
  obtain ⟨opening', _, rfl, ho, hopening', h⟩ := h.is_inv hopening (by decide)
  obtain ⟨r', _, rfl, hr, h⟩ := h.append_inv
  obtain ⟨s', _, rfl, hs, h⟩ := h.append_inv
  obtain ⟨left', _, rfl, -, hleft', h⟩ := h.is_inv hleft (by decide)
  obtain ⟨name', _, rfl, hn, hname', h⟩ := h.kind_inv hname (by decide)
  obtain ⟨comma', _, rfl, -, hcomma', h⟩ := h.is_inv hcomma (by decide)
  obtain ⟨shapeWord', _, rfl, -, hsw', h⟩ := h.is_inv hsw (by decide)
  obtain ⟨shape', _, rfl, hp, hshape', h⟩ := h.kind_inv hshape (by decide)
  obtain ⟨right', _, rfl, -, hright', h⟩ := h.is_inv hright (by decide)
  obtain ⟨m', _, rfl, hm, h⟩ := h.append_inv
  obtain ⟨i', _, rfl, hi, h⟩ := h.append_inv
  obtain ⟨arrow', _, rfl, -, harrow', h⟩ := h.kind_inv harrow (by decide)
  obtain ⟨o', _, rfl, hout, h⟩ := h.append_inv
  obtain ⟨count', hcount', hcview⟩ := stretches_repetition hcount hr
  obtain ⟨stars', hs', hsview⟩ := stretches_stars hstars hs
  obtain ⟨moreStars', hm', hmview⟩ := stretches_stars hstars' hm
  obtain ⟨inputs', hinputs', hiview⟩ := stretches_wiresInParens hinputs hi
  obtain ⟨outputs', houtputs', hoview⟩ := stretches_wiresInParens houtputs hout
  obtain ⟨control', hcontrol', hview⟩ := stretches_callControl hcontrol h
  have hcall := SubroutineCall.intro hopening' hcount' hs' hleft' hname' hcomma' hsw' hshape' hright' hm' hinputs'
    harrow' houtputs' hcontrol'
  simp only [List.cons_append, List.append_assoc] at hcall
  exact ⟨_, hcall,
    by simp [unplaced, unplacedOf, unplacedOf_eq, ho, hn, hp, hcview, hsview, hmview, hiview, hoview, hview]⟩

theorem stretches_gate : Stretches Gate unplaced := by
  intro w t w' ht h
  cases ht with
  | qgate ht =>
    obtain ⟨t', ht', hview⟩ := stretches_qgate ht h
    exact ⟨t', .qgate ht', hview⟩
  | qrot ht =>
    obtain ⟨t', ht', hview⟩ := stretches_qrot ht h
    exact ⟨t', .qrot ht', hview⟩
  | qinit ht =>
    obtain ⟨t', ht', hview⟩ := stretches_qinit ht h
    exact ⟨t', .qinit ht', hview⟩
  | comment ht =>
    obtain ⟨t', ht', hview⟩ := stretches_comment ht h
    exact ⟨t', .comment ht', hview⟩
  | call ht =>
    obtain ⟨t', ht', hview⟩ := stretches_subroutineCall ht h
    exact ⟨t', .call ht', hview⟩

theorem stretches_circuit : Stretches Circuit unplaced := by
  rintro _ _ w' ⟨hnl, hinputs, hgates, hnl', hne, houtputs⟩ h
  simp only [List.append_assoc] at h
  obtain ⟨before, _, rfl, hb, h⟩ := h.append_inv
  obtain ⟨i', _, rfl, hi, h⟩ := h.append_inv
  obtain ⟨g', _, rfl, hg, h⟩ := h.append_inv
  obtain ⟨after, _, rfl, ha, ho⟩ := h.append_inv
  obtain ⟨inputs', hinputs', hiview⟩ := stretches_declarations _ hinputs hi
  obtain ⟨gates', hgates', hgview⟩ := stretches_lines stretches_gate hgates hg
  obtain ⟨outputs', houtputs', hoview⟩ := stretches_declarations _ houtputs ho
  obtain ⟨hafter, hne'⟩ := ha.newlines_inv hnl'
  have hcircuit := Circuit.intro (hb.newlines_inv hnl).1 hinputs' hgates' hafter (hne' hne) houtputs'
  simp only [List.append_assoc] at hcircuit
  exact ⟨_, hcircuit, by simp [unplaced, unplacedOf_eq, hiview, hgview, hoview]⟩

theorem stretches_subroutine : Stretches Subroutine unplaced := by
  rintro _ _ w' ⟨hopening, hname, hnl, hsw, hshape, hnl', hcw, hcontrollable, hnl'', hne, hbody⟩ h
  simp only [List.cons_append, List.append_assoc] at h
  obtain ⟨opening', _, rfl, ho, hopening', h⟩ := h.is_inv hopening (by decide)
  obtain ⟨name', _, rfl, hn, hname', h⟩ := h.kind_inv hname (by decide)
  obtain ⟨first, _, rfl, hf, h⟩ := h.append_inv
  obtain ⟨shapeWord', _, rfl, -, hsw', h⟩ := h.is_inv hsw (by decide)
  obtain ⟨shape', _, rfl, hs, hshape', h⟩ := h.kind_inv hshape (by decide)
  obtain ⟨second, _, rfl, hm, h⟩ := h.append_inv
  obtain ⟨controlWord', _, rfl, -, hcw', h⟩ := h.is_inv hcw (by decide)
  have hkind : ∃ s, Token.is _ .keyword s := hcontrollable.elim (⟨_, ·⟩) (·.elim (⟨_, ·⟩) (⟨_, ·⟩))
  obtain ⟨word, hword⟩ := hkind
  obtain ⟨controllable', _, rfl, hc, -, h⟩ := h.is_inv hword (by decide)
  obtain ⟨third, b', rfl, ht, hb⟩ := h.append_inv
  obtain ⟨hthird, hne'⟩ := ht.newlines_inv hnl''
  obtain ⟨body', hbody', hview⟩ := stretches_circuit hbody hb
  have hsubroutine := Subroutine.intro hopening' hname' (hf.newlines_inv hnl).1 hsw' hshape' (hm.newlines_inv hnl').1
    hcw' (hcontrollable.imp (is_of_unplaced hc) (Or.imp (is_of_unplaced hc) (is_of_unplaced hc))) hthird (hne' hne)
    hbody'
  simp only [List.cons_append, List.append_assoc] at hsubroutine
  exact ⟨_, hsubroutine, by simp [unplaced, unplacedOf, ho, hn, hs, hc, hview]⟩

theorem stretches_program : Stretches Program unplaced := by
  rintro _ _ w' ⟨hmain, hsubs⟩ h
  obtain ⟨c', l', rfl, hc, hl⟩ := h.append_inv
  obtain ⟨main', hmain', hview⟩ := stretches_circuit hmain hc
  obtain ⟨subs', hsubs', hviews⟩ := stretches_lines stretches_subroutine hsubs hl
  exact ⟨_, .intro hmain' hsubs', by simp [unplaced, unplacedOf, unplacedOf_eq, hview, hviews]⟩

theorem stretches_derives (rule : Rule) : Stretches (Derives rule) unplaced := by
  cases rule with
  | program => exact stretches_program
  | circuit => exact stretches_circuit
  | ioStatement => exact stretches_ioStatement
  | arity => exact stretches_arity
  | typeAssignment => exact stretches_typeAssignment
  | gate => exact stretches_gate
  | qgate => exact stretches_qgate
  | qrot => exact stretches_qrot
  | qinit => exact stretches_qinit
  | comment => exact stretches_comment
  | wire => exact stretches_wire
  | subroutineCall => exact stretches_subroutineCall
  | intList => exact stretches_intList
  | controlApp => exact stretches_controlApp
  | subroutine => exact stretches_subroutine
  | _ => exact fun h => h.elim

theorem parseTokens_stretched {rule : Rule} (hrule : rule.isEntry) {u u' : List Token} {eof eof' : Token} {t : Tree}
    (hu : ∀ t ∈ u, t.kind ≠ .endOfInput) (heof : eof.kind = .endOfInput) (heof' : eof'.kind = .endOfInput)
    (h : Stretched u u') (ht : Tree.parseTokens rule (u ++ [eof]) = .ok t) :
    ∃ t', Tree.parseTokens rule (u' ++ [eof']) = .ok t' ∧ t'.unplaced = t.unplaced := by
  obtain ⟨before, w, after, rfl, hbefore, hafter, hw⟩ := derives_of_parseTokens hrule heof hu ht
  obtain ⟨_, after', rfl, h, ha⟩ := h.append_inv
  obtain ⟨before', w', rfl, hb, h⟩ := h.append_inv
  obtain ⟨t', ht', hview⟩ := stretches_derives rule hw h
  exact ⟨t', parseTokens_of_derives hrule heof'
    ⟨before', w', after', rfl, (hb.newlines_inv hbefore).1, (ha.newlines_inv hafter).1, ht'⟩, hview⟩

end CircuitDesk.Grammar
