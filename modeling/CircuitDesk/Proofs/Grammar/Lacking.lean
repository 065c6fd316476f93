import CircuitDesk.Proofs.Grammar.Statements

namespace CircuitDesk.Grammar

open Token (Kind)
open CircuitDesk.Tree.Reading

def countedWords : List (Kind × Bytes) := [(.punctuation, "*"), (.keyword, "Subroutine")]

theorem counted_star : (.punctuation, Bytes.ofString "*") ∈ countedWords := by decide

theorem counted_call : (.keyword, Bytes.ofString "Subroutine") ∈ countedWords := by decide

def Lacks (k : Kind) (s : Bytes) (w : List Token) : Prop := ∀ t ∈ w, t.is k s = false

section

variable {k : Kind} {s : Bytes}

theorem filter_lacks {w : List Token} (h : Lacks k s w) : w.filter (·.is k s) = [] :=
  List.filter_eq_nil_iff.mpr fun t ht => by simp [h t ht]

theorem lacks_nil : Lacks k s [] := by simp [Lacks]

theorem lacks_cons {t : Token} {w : List Token} : Lacks k s (t :: w) ↔ t.is k s = false ∧ Lacks k s w :=
  List.forall_mem_cons

theorem lacks_append {u w : List Token} : Lacks k s (u ++ w) ↔ Lacks k s u ∧ Lacks k s w :=
  List.forall_mem_append

theorem other_word (hc : (k, s) ∈ countedWords) {t : Token} {k' : Kind} {s' : Bytes} (h : t.is k' s')
    (hne : (k', s') ∉ countedWords) : t.is k s = false :=
  is_eq_false h fun heq => hne (heq ▸ hc)

theorem other_kind (hc : (k, s) ∈ countedWords) {t : Token} {k' : Kind} (h : t.kind = k')
    (hne : ∀ c ∈ countedWords, k' ≠ c.1) : t.is k s = false :=
  is_eq_false_of_kind (by rw [h]; exact hne (k, s) hc)

theorem lacks_newlines (hc : (k, s) ∈ countedWords) {w : List Token} (h : Newlines w) : Lacks k s w := fun t ht =>
  other_kind hc (of_decide_eq_true (h t ht)) (by decide)

theorem lacks_separated {α : Type} {L : Phrase α} (hc : (k, s) ∈ countedWords) (hL : ∀ {w a}, L w a → Lacks k s w)
    {w : List Token} {as : List α} (h : Separated L w as) : Lacks k s w := by
  induction h with
  | one h => exact hL h
  | cons h hcomma _ ih => exact lacks_append.mpr ⟨hL h, lacks_cons.mpr ⟨other_word hc hcomma (by decide), ih⟩⟩

theorem lacks_integers (hc : (k, s) ∈ countedWords) {w ts : List Token} (h : Integers w ts) : Lacks k s w := by
  cases h with
  | none => exact lacks_nil
  | some h =>
    refine lacks_separated hc ?_ h
    rintro w t ⟨rfl, h⟩
    exact lacks_cons.mpr ⟨other_kind hc (of_decide_eq_true h) (by decide), lacks_nil⟩

theorem lacks_wiresInParens (hc : (k, s) ∈ countedWords) {w : List Token} {t : Tree} (h : WiresInParens w t) :
    Lacks k s w := by
  obtain ⟨hleft, ⟨hlist⟩, hright⟩ := h
  simp only [lacks_cons, lacks_append, List.cons_append]
  exact ⟨other_word hc hleft (by decide), lacks_integers hc hlist, other_word hc hright (by decide), lacks_nil⟩

theorem lacks_controlApp (hc : (k, s) ∈ countedWords) {w : List Token} {t : Tree} (h : ControlApp w t) :
    Lacks k s w := by
  cases h with
  | none hword => exact lacks_cons.mpr ⟨other_word hc hword (by decide), lacks_nil⟩
  | list hopening hrefs hclose =>
    simp only [lacks_cons, lacks_append, List.cons_append]
    exact ⟨other_word hc hopening (by decide), lacks_integers hc hrefs, other_word hc hclose (by decide), lacks_nil⟩
  | listOnly hopening hrefs hclose hwith hword =>
    simp only [lacks_cons, lacks_append, List.cons_append]
    exact ⟨other_word hc hopening (by decide), lacks_integers hc hrefs, other_word hc hclose (by decide),
      other_word hc hwith (by decide), other_word hc hword (by decide), lacks_nil⟩

theorem lacks_callControl (hc : (k, s) ∈ countedWords) {w : List Token} {t : Tree} (h : CallControl w t) :
    Lacks k s w := by
  cases h with
  | absent => exact lacks_nil
  | present hwith h => exact lacks_cons.mpr ⟨other_word hc hwith (by decide), lacks_controlApp hc h⟩

theorem lacks_repetition (hc : (k, s) ∈ countedWords) {w : List Token} {ts : List Tree} (h : Repetition w ts) :
    Lacks k s w := by
  cases h with
  | absent => exact lacks_nil
  | present hleft hcount hright =>
    simp only [lacks_cons]
    exact ⟨other_word hc hleft (by decide), other_kind hc hcount (by decide), other_word hc hright (by decide),
      lacks_nil⟩

theorem lacks_typeAssignment (hc : (k, s) ∈ countedWords) {w : List Token} {t : Tree} (h : TypeAssignment w t) :
    Lacks k s w := by
  obtain ⟨hwire, hcolon, htype⟩ := h
  simp only [lacks_cons]
  refine ⟨other_kind hc hwire (by decide), other_word hc hcolon (by decide), ?_, lacks_nil⟩
  rcases htype with h | h <;> exact other_word hc h (by decide)

theorem lacks_declarations (hc : (k, s) ∈ countedWords) {word : Bytes} (hword : (.keyword, word) ∉ countedWords)
    {w : List Token} {t : Tree} (h : Declarations word w t) : Lacks k s w := by
  obtain ⟨hdirection, hcolon, ⟨hitems⟩⟩ := h
  simp only [lacks_cons]
  exact ⟨other_word hc hdirection hword, other_word hc hcolon (by decide),
    lacks_separated hc (lacks_typeAssignment hc) hitems⟩

theorem lacks_labelledWire (hc : (k, s) ∈ countedWords) {w : List Token} {p : Token × Token}
    (h : LabelledWire w p) : Lacks k s w := by
  obtain ⟨hwire, hcolon, hlabel⟩ := h
  simp only [lacks_cons]
  exact ⟨other_kind hc hwire (by decide), other_word hc hcolon (by decide), other_kind hc hlabel (by decide),
    lacks_nil⟩

theorem lacks_qinit (hc : (k, s) ∈ countedWords) {w : List Token} {t : Tree} (h : QInit w t) : Lacks k s w := by
  obtain ⟨hword, hleft, htarget, hright, hwith, hcontrol⟩ := h
  simp only [lacks_cons, lacks_append, List.cons_append]
  refine ⟨?_, other_word hc hleft (by decide), ?_, other_word hc hright (by decide), other_word hc hwith (by decide),
    other_word hc hcontrol (by decide), lacks_nil⟩
  · rcases hword with h | h <;> exact other_word hc h (by decide)
  · cases htarget with
    | bare hwire => exact lacks_cons.mpr ⟨other_kind hc hwire (by decide), lacks_nil⟩
    | labelled hwire hcolon hlabel => exact lacks_labelledWire hc ⟨hwire, hcolon, hlabel⟩

theorem lacks_labels (hc : (k, s) ∈ countedWords) {w : List Token} {ps : List (Token × Token)} (h : Labels w ps) :
    Lacks k s w := by
  cases h with
  | none => exact lacks_nil
  | some h => exact lacks_separated hc (lacks_labelledWire hc) h

theorem lacks_comment (hc : (k, s) ∈ countedWords) {w : List Token} {t : Tree} (h : Comment w t) : Lacks k s w := by
  obtain ⟨hopening, htext, hclose, hleft, hlabels, hright⟩ := h
  simp only [lacks_cons, lacks_append, List.cons_append]
  exact ⟨other_word hc hopening (by decide), other_kind hc htext (by decide), other_word hc hclose (by decide),
    other_word hc hleft (by decide), lacks_labels hc hlabels, other_word hc hright (by decide), lacks_nil⟩

end

end CircuitDesk.Grammar
