import CircuitDesk.Proofs.Grammar
import CircuitDesk.Proofs.Phrase.Choice

namespace CircuitDesk.Grammar

open Token (Kind)
open CircuitDesk.Tree.Reading

theorem is_iff {t : Token} {k : Kind} {s : Bytes} : t.is k s ↔ t.kind = k ∧ t.text = s := by
  simp [Token.is]

theorem is_eq_false {t : Token} {k k' : Kind} {s s' : Bytes} (h : t.is k s)
    (hne : (k, s) ≠ (k', s')) : t.is k' s' = false := by
  obtain ⟨hk, hs⟩ := is_iff.mp h
  refine Bool.eq_false_iff.mpr fun h' => hne ?_
  obtain ⟨hk', hs'⟩ := is_iff.mp h'
  rw [← hk, ← hs, hk', hs']

theorem is_eq_false_of_kind {t : Token} {k : Kind} {s : Bytes} (h : t.kind ≠ k) : t.is k s = false :=
  Bool.eq_false_iff.mpr fun h' => h (is_iff.mp h').1

theorem recognizes_typeAssignment : Recognizes Tree.typeAssignment TypeAssignment always := by
  refine RecognizesAfter.congr ((recognizes_expectKind _ (by decide)).andThen fun wire =>
    (recognizes_mark _ _).andThen fun _ =>
      (recognizes_require _ _ ((visible_is (by decide) _).or (visible_is (by decide) _))).andThen fun type =>
        recognizes_pure _) ?_
  intro w t
  simp only [Phrase.seq_one_eq, Phrase.empty, decide_eq_true_eq, Bool.or_eq_true]
  constructor
  · rintro ⟨wire, _, rfl, hwire, colon, _, rfl, hcolon, type, _, rfl, htype, rfl, rfl⟩
    exact .intro hwire hcolon htype
  · rintro ⟨hwire, hcolon, htype⟩
    exact ⟨_, _, rfl, hwire, _, _, rfl, hcolon, _, _, rfl, htype, rfl, rfl⟩

def NoComma (t : Token) : Prop := isComma t = false

theorem recognizes_arity : Recognizes Tree.arity Arity NoComma := by
  refine RecognizesAfter.congr ((recognizes_commaSeparated _ recognizes_typeAssignment fun _ _ => trivial).bind
    (fun items => recognizes_pure _) ?_) ?_
  · rintro u a w b s - ⟨rfl, rfl⟩ hs
    exact ⟨trivial, hs⟩
  · intro w t
    rw [Phrase.seq_empty]
    constructor
    · rintro ⟨items, h, rfl⟩
      exact .intro h
    · rintro ⟨h⟩
      exact ⟨_, h, rfl⟩

theorem recognizes_ioStatement : Recognizes Tree.ioStatement IoStatement NoComma := by
  refine RecognizesAfter.congr
    ((recognizes_require _ _ ((visible_is (by decide) _).or (visible_is (by decide) _))).andThen
      fun direction => (recognizes_mark _ _).andThen fun _ =>
        recognizes_arity.bind (fun list => recognizes_pure _) ?_) ?_
  · rintro u a w b s - ⟨rfl, rfl⟩ hs
    exact hs
  · intro w t
    simp only [Phrase.seq_one_eq, Phrase.seq_empty_eq, Bool.or_eq_true]
    constructor
    · rintro ⟨direction, _, rfl, hdirection | hdirection, colon, _, rfl, hcolon, list, hlist, rfl⟩
      · exact .inl (.intro hdirection hcolon hlist)
      · exact .inr (.intro hdirection hcolon hlist)
    · rintro (⟨hdirection, hcolon, hlist⟩ | ⟨hdirection, hcolon, hlist⟩)
      · exact ⟨_, _, rfl, .inl hdirection, _, _, rfl, hcolon, _, hlist, rfl⟩
      · exact ⟨_, _, rfl, .inr hdirection, _, _, rfl, hcolon, _, hlist, rfl⟩

theorem recognizes_integer (rule : Rule) :
    Recognizes (expectKind rule .integer) Integer always := recognizes_expectKind _ (by decide)

theorem integers_cons {w : List Token} {ts : List Token} (h : Separated Integer w ts) :
    ∃ t v, w = t :: v ∧ t.kind = .integer := by
  cases h with
  | one h =>
    obtain ⟨rfl, h⟩ := h
    exact ⟨_, [], rfl, of_decide_eq_true h⟩
  | cons h _ _ =>
    obtain ⟨rfl, h⟩ := h
    exact ⟨_, _, rfl, of_decide_eq_true h⟩

theorem recognizes_intList :
    Recognizes Tree.intList IntList (fun t => NoComma t ∧ t.kind ≠ .integer) := by
  refine RecognizesAfter.congr (recognizes_choice
    (((recognizes_commaSeparated _ (recognizes_integer _) fun _ _ => trivial).bind
      (fun items => recognizes_pure _) ?_)) (recognizes_pure _) ?_ ?_) ?_
  · rintro u a w b s - ⟨rfl, rfl⟩ hs
    exact ⟨trivial, hs.1⟩
  · intro w t s h hs
    obtain ⟨ts, hts, rfl⟩ := Phrase.seq_empty.mp h
    obtain ⟨t, v, rfl, ht⟩ := integers_cons hts
    exact ht
  · rintro w t s ⟨rfl, rfl⟩ hs
    exact hs.2
  · intro w t
    simp only [Phrase.either, Phrase.seq_empty_eq, Phrase.empty]
    constructor
    · rintro (⟨ts, h, rfl⟩ | ⟨rfl, rfl⟩)
      · exact .intro (.some h)
      · exact .intro .none
    · rintro ⟨h⟩
      cases h with
      | none => exact .inr ⟨rfl, rfl⟩
      | some h => exact .inl ⟨_, h, rfl⟩

theorem recognizes_unless {α : Type} {item : Tree.Reading α} {L : Phrase α} {optional : Phrase (List α)} {close : Bytes}
    (hclose : close ≠ ",") (h : NeverGrows item) (hi : Recognizes item L always)
    (hinteger : ∀ w as, Separated L w as → ∃ t v, w = t :: v ∧ t.kind = .integer)
    (hoptional : ∀ w as, optional w as ↔ (w = [] ∧ as = []) ∨ Separated L w as) :
    Recognizes (do if (← peek).is .punctuation close then return [] else commaSeparated item h) optional
      (fun t => t.is .punctuation close = true) := by
  refine RecognizesAfter.congr (recognizes_choice (recognizes_pure _)
    ((recognizes_commaSeparated h hi fun _ _ => trivial).weaken ?_) ?_ ?_) ?_
  · intro t ht
    exact ⟨trivial, is_eq_false ht (by simp [hclose])⟩
  · rintro w as s ⟨rfl, rfl⟩ hs
    exact hs
  · intro w as s has hs
    obtain ⟨t, v, rfl, ht⟩ := hinteger w as has
    exact Bool.eq_false_iff.mp (is_eq_false_of_kind (by simp [front, ht]))
  · intro w as
    exact (hoptional w as).symm

theorem recognizes_controlRefs :
    Recognizes Tree.controlRefs Integers (fun t => t.is .punctuation "]" = true) := by
  refine recognizes_unless (by decide) _ (recognizes_integer _) (fun _ _ => integers_cons) fun w ts => ?_
  constructor
  · rintro (_ | h)
    · exact .inl ⟨rfl, rfl⟩
    · exact .inr h
  · rintro (⟨rfl, rfl⟩ | h)
    · exact .none
    · exact .some h

def NoWith (t : Token) : Prop := t.is .keyword "with" = false

theorem recognizes_controlApp : Recognizes Tree.controlApp ControlApp NoWith := by
  refine RecognizesAfter.congr (recognizes_takeIf (visible_is (by decide) _) (fun t => recognizes_pure _)
    ((recognizes_require _ _ (visible_is (by decide) _)).andThen fun opening =>
      recognizes_controlRefs.bind (fun refs => (recognizes_mark _ _).andThen fun _ =>
        recognizes_takeIf (visible_is (by decide) _)
          (fun _ => (recognizes_expect _ (by decide) _).andThen fun word => recognizes_pure _)
          (recognizes_pure _) ?_) ?_) ?_) ?_
  · rintro w a s ⟨rfl, rfl⟩ hs
    exact hs
  · intro u a w b s _ h _
    obtain ⟨t, v, rfl, ht, -⟩ := Phrase.seq_one.mp h
    exact ht
  · intro w a s h _
    obtain ⟨t, v, rfl, ht, -⟩ := Phrase.seq_one.mp h
    exact is_eq_false ht (by decide)
  · intro w t
    simp only [Phrase.either, Phrase.seq_one_eq, Phrase.empty]
    constructor
    · rintro (⟨word, _, rfl, hword, rfl, rfl⟩ | ⟨opening, _, rfl, hopening, refs, w, _, rfl, hrefs, h⟩)
      · exact .none hword
      obtain ⟨close, _, rfl, hclose, h⟩ := h
      rcases h with ⟨withWord, _, rfl, hwith, word, _, rfl, hword, rfl, rfl⟩ | ⟨rfl, rfl⟩
      · exact .listOnly hopening hrefs hclose hwith hword
      · exact .list hopening hrefs hclose
    · intro h
      cases h with
      | none hword => exact .inl ⟨_, _, rfl, hword, rfl, rfl⟩
      | list hopening hrefs hclose =>
        exact .inr ⟨_, _, rfl, hopening, _, _, _, rfl, hrefs, _, _, rfl, hclose, .inr ⟨rfl, rfl⟩⟩
      | listOnly hopening hrefs hclose hwith hword =>
        exact .inr ⟨_, _, rfl, hopening, _, _, _, rfl, hrefs, _, _, rfl, hclose,
          .inl ⟨_, _, rfl, hwith, _, _, rfl, hword, rfl, rfl⟩⟩

def NoStar (t : Token) : Prop := t.is .punctuation "*" = false

theorem recognizes_star : Recognizes Tree.star Stars NoStar := by
  refine RecognizesAfter.congr (recognizes_takeIf (visible_is (by decide) _) (fun t => recognizes_pure _)
    (recognizes_pure _) ?_) ?_
  · rintro w a s ⟨rfl, rfl⟩ hs
    exact hs
  · intro w t
    simp only [Phrase.either, Phrase.seq_one_eq, Phrase.empty]
    constructor
    · rintro (⟨t, _, rfl, ht, rfl, rfl⟩ | ⟨rfl, rfl⟩)
      · exact .present ht
      · exact .absent
    · rintro (_ | ht)
      · exact .inr ⟨rfl, rfl⟩
      · exact .inl ⟨_, _, rfl, ht, rfl, rfl⟩

theorem recognizes_qgate : Recognizes Tree.qgate QGate NoWith := by
  refine RecognizesAfter.congr ((recognizes_expect _ (by decide) _).andThen fun opening =>
    (recognizes_expectKind _ (by decide)).andThen fun name => (recognizes_mark _ _).andThen fun _ =>
      recognizes_star.bind (fun stars => (recognizes_mark _ _).andThen fun _ =>
        (recognizes_expectKind _ (by decide)).andThen fun wire => (recognizes_mark _ _).andThen fun _ =>
          (recognizes_expect _ (by decide) _).andThen fun _ =>
            recognizes_controlApp.bind (fun control => recognizes_pure _) ?_) ?_) ?_
  · rintro u a w b s - ⟨rfl, rfl⟩ hs
    exact hs
  · intro u a w b s _ h _
    obtain ⟨t, v, rfl, ht, -⟩ := Phrase.seq_one.mp h
    exact is_eq_false ht (by decide)
  · intro w t
    simp only [Phrase.seq_one_eq, Phrase.seq_empty_eq, decide_eq_true_eq]
    constructor
    · rintro ⟨opening, _, rfl, hopening, name, _, rfl, hname, close, _, rfl, hclose, stars, s, _, rfl, hstars, h⟩
      obtain ⟨left, _, rfl, hleft, wire, _, rfl, hwire, right, _, rfl, hright, h⟩ := h
      obtain ⟨withWord, _, rfl, hwith, control, hcontrol, rfl⟩ := h
      exact .intro hopening hname hclose hstars hleft hwire hright hwith hcontrol
    · rintro ⟨hopening, hname, hclose, hstars, hleft, hwire, hright, hwith, hcontrol⟩
      exact ⟨_, _, rfl, hopening, _, _, rfl, hname, _, _, rfl, hclose, _, _, _, rfl, hstars,
        _, _, rfl, hleft, _, _, rfl, hwire, _, _, rfl, hright, _, _, rfl, hwith, _, hcontrol, rfl⟩

theorem recognizes_qrot : Recognizes Tree.qrot QRot always := by
  refine RecognizesAfter.congr ((recognizes_expect _ (by decide) _).andThen fun opening =>
    (recognizes_expectKind _ (by decide)).andThen fun name => (recognizes_mark _ _).andThen fun _ =>
      (recognizes_expectKind _ (by decide)).andThen fun step => (recognizes_mark _ _).andThen fun _ =>
        recognizes_star.bind (fun stars => (recognizes_mark _ _).andThen fun _ =>
          (recognizes_expectKind _ (by decide)).andThen fun wire => (recognizes_mark _ _).andThen fun _ =>
            recognizes_pure _) ?_) ?_
  · intro u a w b s _ h _
    obtain ⟨t, v, rfl, ht, -⟩ := Phrase.seq_one.mp h
    exact is_eq_false ht (by decide)
  · intro w t
    simp only [Phrase.seq_one_eq, Phrase.empty, decide_eq_true_eq]
    constructor
    · rintro ⟨opening, _, rfl, hopening, name, _, rfl, hname, comma, _, rfl, hcomma, step, _, rfl, hstep, h⟩
      obtain ⟨close, _, rfl, hclose, stars, s, _, rfl, hstars, left, _, rfl, hleft, h⟩ := h
      obtain ⟨wire, _, rfl, hwire, right, _, rfl, hright, rfl, rfl⟩ := h
      exact .intro hopening hname hcomma hstep hclose hstars hleft hwire hright
    · rintro ⟨hopening, hname, hcomma, hstep, hclose, hstars, hleft, hwire, hright⟩
      exact ⟨_, _, rfl, hopening, _, _, rfl, hname, _, _, rfl, hcomma, _, _, rfl, hstep, _, _, rfl, hclose,
        _, _, _, rfl, hstars, _, _, rfl, hleft, _, _, rfl, hwire, _, _, rfl, hright, rfl, rfl⟩

def NoColon (t : Token) : Prop := t.is .punctuation ":" = false

theorem recognizes_initTarget : Recognizes Tree.initTarget InitTarget NoColon := by
  refine RecognizesAfter.congr ((recognizes_expectKind _ (by decide)).andThen fun wire =>
    recognizes_takeIf (visible_is (by decide) _)
      (fun _ => (recognizes_expectKind _ (by decide)).andThen fun label => recognizes_pure _)
      (recognizes_pure _) ?_) ?_
  · rintro w a s ⟨rfl, rfl⟩ hs
    exact hs
  · intro w t
    simp only [Phrase.either, Phrase.seq_one_eq, Phrase.empty, decide_eq_true_eq]
    constructor
    · rintro ⟨wire, _, rfl, hwire, ⟨colon, _, rfl, hcolon, label, _, rfl, hlabel, rfl, rfl⟩ | ⟨rfl, rfl⟩⟩
      · exact .labelled hwire hcolon hlabel
      · exact .bare hwire
    · rintro (hwire | ⟨hwire, hcolon, hlabel⟩)
      · exact ⟨_, _, rfl, hwire, .inr ⟨rfl, rfl⟩⟩
      · exact ⟨_, _, rfl, hwire, .inl ⟨_, _, rfl, hcolon, _, _, rfl, hlabel, rfl, rfl⟩⟩

theorem recognizes_qinit : Recognizes Tree.qinit QInit always := by
  refine RecognizesAfter.congr
    ((recognizes_require _ _ ((visible_is (by decide) _).or (visible_is (by decide) _))).andThen
      fun word => (recognizes_mark _ _).andThen fun _ =>
        recognizes_initTarget.bind (fun target => (recognizes_mark _ _).andThen fun _ =>
          (recognizes_expect _ (by decide) _).andThen fun _ =>
            (recognizes_expect _ (by decide) _).andThen fun _ => recognizes_pure _) ?_) ?_
  · intro u a w b s _ h _
    obtain ⟨t, v, rfl, ht, -⟩ := Phrase.seq_one.mp h
    exact is_eq_false ht (by decide)
  · intro w t
    simp only [Phrase.seq_one_eq, Phrase.empty, Bool.or_eq_true]
    constructor
    · rintro ⟨word, _, rfl, hword, left, _, rfl, hleft, target, w, _, rfl, htarget, right, _, rfl, hright, h⟩
      obtain ⟨withWord, _, rfl, hwith, control, _, rfl, hcontrol, rfl, rfl⟩ := h
      exact .intro hword hleft htarget hright hwith hcontrol
    · rintro ⟨hword, hleft, htarget, hright, hwith, hcontrol⟩
      exact ⟨_, _, rfl, hword, _, _, rfl, hleft, _, _, _, rfl, htarget, _, _, rfl, hright,
        _, _, rfl, hwith, _, _, rfl, hcontrol, rfl, rfl⟩

theorem recognizes_labelledWire : Recognizes Tree.labelledWire LabelledWire always := by
  refine RecognizesAfter.congr ((recognizes_expectKind _ (by decide)).andThen fun wire =>
    (recognizes_mark _ _).andThen fun _ => (recognizes_expectKind _ (by decide)).andThen fun label =>
      recognizes_pure _) ?_
  intro w p
  simp only [Phrase.seq_one_eq, Phrase.empty, decide_eq_true_eq]
  constructor
  · rintro ⟨wire, _, rfl, hwire, colon, _, rfl, hcolon, label, _, rfl, hlabel, rfl, rfl⟩
    exact .intro hwire hcolon hlabel
  · rintro ⟨hwire, hcolon, hlabel⟩
    exact ⟨_, _, rfl, hwire, _, _, rfl, hcolon, _, _, rfl, hlabel, rfl, rfl⟩

theorem recognizes_wire : Recognizes Tree.wire Wire always := by
  refine RecognizesAfter.congr (recognizes_labelledWire.andThen fun p => recognizes_pure _) ?_
  intro w t
  simp only [Phrase.seq_empty_eq]
  constructor
  · rintro ⟨p, h, rfl⟩
    exact .intro h
  · rintro ⟨h⟩
    exact ⟨_, h, rfl⟩

theorem labelledWires_cons {w : List Token} {ps : List (Token × Token)}
    (h : Separated LabelledWire w ps) : ∃ t v, w = t :: v ∧ t.kind = .integer := by
  cases h with
  | one h => cases h with | intro h _ _ => exact ⟨_, _, rfl, h⟩
  | cons h _ _ => cases h with | intro h _ _ => exact ⟨_, _, rfl, h⟩

theorem recognizes_commentLabels :
    Recognizes Tree.commentLabels Labels (fun t => t.is .punctuation ")" = true) := by
  refine recognizes_unless (by decide) _ recognizes_labelledWire (fun _ _ => labelledWires_cons) fun w ps => ?_
  constructor
  · rintro (_ | h)
    · exact .inl ⟨rfl, rfl⟩
    · exact .inr h
  · rintro (⟨rfl, rfl⟩ | h)
    · exact .none
    · exact .some h

theorem recognizes_comment : Recognizes Tree.comment Comment always := by
  refine RecognizesAfter.congr ((recognizes_expect _ (by decide) _).andThen fun opening =>
    (recognizes_expectKind _ (by decide)).andThen fun text => (recognizes_mark _ _).andThen fun _ =>
      (recognizes_mark _ _).andThen fun _ => recognizes_commentLabels.bind
        (fun labels => (recognizes_mark _ _).andThen fun _ => recognizes_pure _) ?_) ?_
  · intro u a w b s _ h _
    obtain ⟨t, v, rfl, ht, -⟩ := Phrase.seq_one.mp h
    exact ht
  · intro w t
    simp only [Phrase.seq_one_eq, Phrase.empty, decide_eq_true_eq]
    constructor
    · rintro ⟨opening, _, rfl, hopening, text, _, rfl, htext, close, _, rfl, hclose, left, _, rfl, hleft, h⟩
      obtain ⟨labels, w, _, rfl, hlabels, right, _, rfl, hright, rfl, rfl⟩ := h
      exact .intro hopening htext hclose hleft hlabels hright
    · rintro ⟨hopening, htext, hclose, hleft, hlabels, hright⟩
      exact ⟨_, _, rfl, hopening, _, _, rfl, htext, _, _, rfl, hclose, _, _, rfl, hleft, _, _, _, rfl,
        hlabels, _, _, rfl, hright, rfl, rfl⟩

def NoParen (t : Token) : Prop := t.is .punctuation "(" = false

theorem recognizes_repetition : Recognizes Tree.repetition Repetition NoParen := by
  refine RecognizesAfter.congr (recognizes_takeIf (visible_is (by decide) _)
    (fun _ => (recognizes_expectKind _ (by decide)).andThen fun count =>
      (recognizes_mark _ _).andThen fun _ => recognizes_pure _)
    (recognizes_pure _) ?_) ?_
  · rintro w a s ⟨rfl, rfl⟩ hs
    exact hs
  · intro w t
    simp only [Phrase.either, Phrase.seq_one_eq, Phrase.empty, decide_eq_true_eq]
    constructor
    · rintro (⟨left, _, rfl, hleft, count, _, rfl, hcount, right, _, rfl, hright, rfl, rfl⟩ | ⟨rfl, rfl⟩)
      · exact .present hleft hcount hright
      · exact .absent
    · rintro (_ | ⟨hleft, hcount, hright⟩)
      · exact .inr ⟨rfl, rfl⟩
      · exact .inl ⟨_, _, rfl, hleft, _, _, rfl, hcount, _, _, rfl, hright, rfl, rfl⟩

theorem recognizes_wiresInParens : Recognizes Tree.wiresInParens WiresInParens always := by
  refine RecognizesAfter.congr ((recognizes_mark _ _).andThen fun _ => recognizes_intList.bind
    (fun list => (recognizes_mark _ _).andThen fun _ => recognizes_pure _) ?_) ?_
  · intro u a w b s _ h _
    obtain ⟨t, v, rfl, ht, -⟩ := Phrase.seq_one.mp h
    refine ⟨is_eq_false ht (by decide), ?_⟩
    simp [front, (is_iff.mp ht).1]
  · intro w t
    simp only [Phrase.seq_one_eq, Phrase.empty]
    constructor
    · rintro ⟨left, _, rfl, hleft, list, w, _, rfl, hlist, right, _, rfl, hright, rfl, rfl⟩
      exact .intro hleft hlist hright
    · rintro ⟨hleft, hlist, hright⟩
      exact ⟨_, _, rfl, hleft, _, _, _, rfl, hlist, _, _, rfl, hright, rfl, rfl⟩

theorem recognizes_callControl : Recognizes Tree.callControl CallControl NoWith := by
  refine RecognizesAfter.congr (recognizes_takeIf (visible_is (by decide) _)
    (fun _ => recognizes_controlApp) (recognizes_pure _) ?_) ?_
  · rintro w a s ⟨rfl, rfl⟩ hs
    exact hs
  · intro w t
    simp only [Phrase.either, Phrase.seq_one_eq, Phrase.empty]
    constructor
    · rintro (⟨withWord, w, rfl, hwith, hcontrol⟩ | ⟨rfl, rfl⟩)
      · exact .present hwith hcontrol
      · exact .absent
    · rintro (_ | ⟨hwith, hcontrol⟩)
      · exact .inr ⟨rfl, rfl⟩
      · exact .inl ⟨_, _, rfl, hwith, hcontrol⟩

theorem recognizes_subroutineCall : Recognizes Tree.subroutineCall SubroutineCall NoWith := by
  refine RecognizesAfter.congr ((recognizes_expect _ (by decide) _).andThen fun opening =>
    recognizes_repetition.bind (fun count => recognizes_star.bind (fun stars =>
      (recognizes_mark _ _).andThen fun _ => (recognizes_expectKind _ (by decide)).andThen fun name =>
        (recognizes_mark _ _).andThen fun _ => (recognizes_expect _ (by decide) _).andThen fun _ =>
          (recognizes_expectKind _ (by decide)).andThen fun shape => (recognizes_mark _ _).andThen fun _ =>
            recognizes_star.bind (fun moreStars => recognizes_wiresInParens.andThen fun inputs =>
              (recognizes_expectKind _ (by decide)).andThen fun _ =>
                recognizes_wiresInParens.andThen fun outputs =>
                  recognizes_callControl.bind (fun control => recognizes_pure _) ?_) ?_) ?_) ?_) ?_
  · rintro u a w b s - ⟨rfl, rfl⟩ hs
    exact hs
  · rintro u a w b s _ ⟨inputs, i, v, rfl, ⟨hleft, _, _⟩, _⟩ _
    exact is_eq_false hleft (by decide)
  · intro u a w b s _ h _
    obtain ⟨t, v, rfl, ht, -⟩ := Phrase.seq_one.mp h
    exact is_eq_false ht (by decide)
  · rintro u a w b s _ ⟨stars, s, v, rfl, hstars, h⟩ _
    obtain ⟨t, v, rfl, ht, -⟩ := Phrase.seq_one.mp h
    cases hstars with
    | absent => exact is_eq_false ht (by decide)
    | present hstar => exact is_eq_false hstar (by decide)
  · intro w t
    simp only [Phrase.seq_one_eq, Phrase.seq_empty_eq, decide_eq_true_eq]
    constructor
    · rintro ⟨opening, _, rfl, hopening, count, r, _, rfl, hcount, stars, s, _, rfl, hstars, h⟩
      obtain ⟨left, _, rfl, hleft, name, _, rfl, hname, comma, _, rfl, hcomma, shapeWord, _, rfl, hsw, h⟩ := h
      obtain ⟨shape, _, rfl, hshape, right, _, rfl, hright, stars', s', _, rfl, hstars', h⟩ := h
      obtain ⟨inputs, i, _, rfl, hinputs, arrow, _, rfl, harrow, h⟩ := h
      obtain ⟨outputs, o, _, rfl, houtputs, control, hcontrol, rfl⟩ := h
      simpa using SubroutineCall.intro hopening hcount hstars hleft hname hcomma hsw hshape hright hstars'
        hinputs harrow houtputs hcontrol
    · rintro ⟨hopening, hcount, hstars, hleft, hname, hcomma, hsw, hshape, hright, hstars', hinputs, harrow,
        houtputs, hcontrol⟩
      exact ⟨_, _, by simp only [List.append_assoc, List.cons_append], hopening, _, _, _, rfl, hcount,
        _, _, _, rfl, hstars, _, _, rfl, hleft, _, _, rfl, hname, _, _, rfl, hcomma, _, _, rfl, hsw,
        _, _, rfl, hshape, _, _, rfl, hright, _, _, _, rfl, hstars', _, _, _, rfl, hinputs,
        _, _, rfl, harrow, _, _, _, rfl, houtputs, _, hcontrol, rfl⟩

theorem qgate_cons {w : List Token} {t : Tree} (h : QGate w t) :
    ∃ first v, w = first :: v ∧ first.is .opener "QGate[" := by
  cases h with | intro h => exact ⟨_, _, rfl, h⟩

theorem qrot_cons {w : List Token} {t : Tree} (h : QRot w t) :
    ∃ first v, w = first :: v ∧ first.is .opener "QRot[" := by
  cases h with | intro h => exact ⟨_, _, rfl, h⟩

theorem qinit_cons {w : List Token} {t : Tree} (h : QInit w t) :
    ∃ first v, w = first :: v ∧ (first.is .keyword "QInit0" ∨ first.is .keyword "QInit1") := by
  cases h with | intro h => exact ⟨_, _, rfl, h⟩

theorem comment_cons {w : List Token} {t : Tree} (h : Comment w t) :
    ∃ first v, w = first :: v ∧ first.is .opener "Comment[" := by
  cases h with | intro h => exact ⟨_, _, rfl, h⟩

theorem subroutineCall_cons {w : List Token} {t : Tree} (h : SubroutineCall w t) :
    ∃ first v, w = first :: v ∧ first.is .keyword "Subroutine" := by
  cases h with | intro h => exact ⟨_, _, rfl, h⟩

theorem not_is {t : Token} {k k' : Kind} {s s' : Bytes} (h : t.is k s) (hne : (k, s) ≠ (k', s')) :
    ¬ t.is k' s' := Bool.eq_false_iff.mp (is_eq_false h hne)

theorem not_is_or {t : Token} {k k₁ k₂ : Kind} {s s₁ s₂ : Bytes} (h : t.is k s) (h₁ : (k, s) ≠ (k₁, s₁))
    (h₂ : (k, s) ≠ (k₂, s₂)) : ¬ (t.is k₁ s₁ || t.is k₂ s₂) = true := by
  simp [is_eq_false h h₁, is_eq_false h h₂]

theorem recognizes_gate : Recognizes Tree.gate Gate NoWith := by
  refine RecognizesAfter.congr (recognizes_choice recognizes_qgate
    (recognizes_choice (recognizes_qrot.weaken fun _ _ => trivial)
      (recognizes_choice (recognizes_qinit.weaken fun _ _ => trivial)
        (recognizes_choice (recognizes_comment.weaken fun _ _ => trivial)
          (recognizes_orFail recognizes_subroutineCall.anywhere _ _ ?_) ?_ ?_) ?_ ?_) ?_ ?_) ?_ ?_) ?_
  · intro w t s h _
    obtain ⟨first, v, rfl, hf⟩ := subroutineCall_cons h
    exact hf
  · intro w t s h _
    obtain ⟨first, v, rfl, hf⟩ := comment_cons h
    exact hf
  · intro w t s h _
    obtain ⟨first, v, rfl, hf⟩ := subroutineCall_cons h
    exact not_is hf (by decide)
  · intro w t s h _
    obtain ⟨first, v, rfl, hf⟩ := qinit_cons h
    exact Bool.or_eq_true_iff.mpr hf
  · rintro w t s (h | h) _
    · obtain ⟨first, v, rfl, hf⟩ := comment_cons h
      exact not_is_or hf (by decide) (by decide)
    · obtain ⟨first, v, rfl, hf⟩ := subroutineCall_cons h
      exact not_is_or hf (by decide) (by decide)
  · intro w t s h _
    obtain ⟨first, v, rfl, hf⟩ := qrot_cons h
    exact hf
  · rintro w t s (h | h | h) _
    · obtain ⟨first, v, rfl, hf | hf⟩ := qinit_cons h
      · exact not_is hf (by decide)
      · exact not_is hf (by decide)
    · obtain ⟨first, v, rfl, hf⟩ := comment_cons h
      exact not_is hf (by decide)
    · obtain ⟨first, v, rfl, hf⟩ := subroutineCall_cons h
      exact not_is hf (by decide)
  · intro w t s h _
    obtain ⟨first, v, rfl, hf⟩ := qgate_cons h
    exact hf
  · rintro w t s (h | h | h | h) _
    · obtain ⟨first, v, rfl, hf⟩ := qrot_cons h
      exact not_is hf (by decide)
    · obtain ⟨first, v, rfl, hf | hf⟩ := qinit_cons h
      · exact not_is hf (by decide)
      · exact not_is hf (by decide)
    · obtain ⟨first, v, rfl, hf⟩ := comment_cons h
      exact not_is hf (by decide)
    · obtain ⟨first, v, rfl, hf⟩ := subroutineCall_cons h
      exact not_is hf (by decide)
  · intro w t
    constructor
    · rintro (h | h | h | h | h)
      · exact .qgate h
      · exact .qrot h
      · exact .qinit h
      · exact .comment h
      · exact .call h
    · rintro (h | h | h | h | h)
      · exact .inl h
      · exact .inr (.inl h)
      · exact .inr (.inr (.inl h))
      · exact .inr (.inr (.inr (.inl h)))
      · exact .inr (.inr (.inr (.inr h)))

end CircuitDesk.Grammar
