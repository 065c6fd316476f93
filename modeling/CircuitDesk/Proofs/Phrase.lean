import CircuitDesk.Tree.Reading

/-!
Languages of token words and the readings that recognize them. A reading looks one token ahead, so what
it does on a word depends on the word and on the first token behind it; `Recognizes` says which words it
takes, what may follow them, and that it stops at the first token no word of the language can go on with.
-/
namespace CircuitDesk.Tree.Reading

open Token (Kind)

/-- Words of tokens, each with what it stands for. -/
abbrev Phrase (α : Type) : Type := List Token → α → Prop

namespace Phrase

variable {α β : Type}

def empty (a : α) : Phrase α := fun w b => w = [] ∧ b = a

def one (p : Token → Bool) : Phrase Token := fun w t => w = [t] ∧ p t

def seq (L : Phrase α) (M : α → Phrase β) : Phrase β :=
  fun w b => ∃ a u v, w = u ++ v ∧ L u a ∧ M a v b

def either (L M : Phrase α) : Phrase α := fun w a => L w a ∨ M w a

theorem seq_one {p : Token → Bool} {M : Token → Phrase β} {w : List Token} {b : β} :
    seq (one p) M w b ↔ ∃ t v, w = t :: v ∧ p t ∧ M t v b := by
  constructor
  · rintro ⟨t, _, v, rfl, ⟨rfl, hp⟩, hv⟩
    exact ⟨t, v, rfl, hp, hv⟩
  · rintro ⟨t, v, rfl, hp, hv⟩
    exact ⟨t, [t], v, rfl, ⟨rfl, hp⟩, hv⟩

theorem seq_empty {L : Phrase α} {f : α → β} {w : List Token} {b : β} :
    seq L (fun a => empty (f a)) w b ↔ ∃ a, L w a ∧ b = f a := by
  constructor
  · rintro ⟨a, u, v, rfl, hu, rfl, rfl⟩
    exact ⟨a, by simpa using hu, rfl⟩
  · rintro ⟨a, ha, rfl⟩
    exact ⟨a, w, [], by simp, ha, rfl, rfl⟩

theorem seq_one_eq (p : Token → Bool) (M : Token → Phrase β) :
    seq (one p) M = fun w b => ∃ t v, w = t :: v ∧ p t ∧ M t v b := by
  funext w b
  exact propext seq_one

theorem seq_empty_eq (L : Phrase α) (f : α → β) :
    (seq L fun a => empty (f a)) = fun w b => ∃ a, L w a ∧ b = f a := by
  funext w b
  exact propext seq_empty

end Phrase

theorem front_append {u s t : List Token} (h : front s = front t) :
    front (u ++ s) = front (u ++ t) := by
  cases u with
  | nil => exact h
  | cons t u => rfl

theorem bind_eq_error {α β : Type} {r : Reading α} {f : α → Reading β} {ts : List Token}
    {e : SyntaxFault} :
    (r >>= f) ts = .error e ↔
      r ts = .error e ∨ ∃ a mid, r ts = .ok (a, mid) ∧ f a mid = .error e := by
  simp only [bind]
  cases r ts with
  | error e => simp
  | ok p =>
    constructor
    · intro h
      exact .inr ⟨p.1, p.2, rfl, h⟩
    · rintro (h | ⟨a, mid, h, hf⟩)
      · cases h
      · cases h
        exact hf

/-- What a reading does when the token in front satisfies `entry`: it takes exactly the words of `L`, if
they are followed by a token of `stop`. Where it fails, the tokens before the fault are the start of a
word. In both cases no token but the first behind the word counts. -/
structure RecognizesAfter {α : Type} (entry : Token → Prop) (r : Reading α) (L : Phrase α)
    (stop : Token → Prop) : Prop where
  inhabited : ∃ w a, L w a
  closed : ∀ {w a}, L w a → ∀ t ∈ w, t.kind ≠ .endOfInput
  sound : ∀ {ts a rest}, entry (front ts) → r ts = .ok (a, rest) →
    ∃ w, ts = w ++ rest ∧ L w a ∧ ∀ s, front s = front rest → r (w ++ s) = .ok (a, s)
  complete : ∀ {w a s}, L w a → stop (front s) → r (w ++ s) = .ok (a, s)
  stuck : ∀ {ts e}, entry (front ts) → r ts = .error e →
    ∃ w s, ts = w ++ s ∧ e.found = front s ∧ (∃ v a, L (w ++ v) a) ∧
      ∀ s', front s' = front s → r (w ++ s') = .error e

def always (_ : Token) : Prop := True

abbrev Recognizes {α : Type} (r : Reading α) (L : Phrase α) (stop : Token → Prop) : Prop :=
  RecognizesAfter always r L stop

namespace RecognizesAfter

variable {α β : Type} {entry mid stop stop' : Token → Prop} {r : Reading α} {f : α → Reading β}
  {L L' : Phrase α} {M : α → Phrase β}

theorem congr (h : RecognizesAfter entry r L stop) (hL : ∀ w a, L w a ↔ L' w a) :
    RecognizesAfter entry r L' stop := by
  obtain rfl : L = L' := funext fun w => funext fun a => propext (hL w a)
  exact h

theorem weaken (h : RecognizesAfter entry r L stop) (hs : ∀ t, stop' t → stop t) :
    RecognizesAfter entry r L stop' where
  inhabited := h.inhabited
  closed := h.closed
  sound := h.sound
  complete hw ht := h.complete hw (hs _ ht)
  stuck := h.stuck

theorem anywhere (h : Recognizes r L stop) : RecognizesAfter entry r L stop where
  inhabited := h.inhabited
  closed := h.closed
  sound _ := h.sound trivial
  complete := h.complete
  stuck _ := h.stuck trivial

theorem restrict (h : Recognizes r L stop) (hL : ∀ {w a}, L' w a → L w a)
    (hL' : ∀ {w a}, L w a → L' w a ∨ ∃ t v, w = t :: v ∧ ¬ entry t) (hne : ∃ w a, L' w a) :
    RecognizesAfter entry r L' stop where
  inhabited := hne
  closed hw := h.closed (hL hw)
  sound := by
    intro ts a rest he hr
    obtain ⟨w, rfl, hw, hs⟩ := h.sound trivial hr
    rcases hL' hw with hw' | ⟨t, v, rfl, ht⟩
    · exact ⟨w, rfl, hw', hs⟩
    · exact absurd he ht
  complete hw hs := h.complete (hL hw) hs
  stuck := by
    intro ts e he hr
    obtain ⟨w, s, rfl, hfound, ⟨v, a, hv⟩, hs⟩ := h.stuck trivial hr
    refine ⟨w, s, rfl, hfound, ?_, hs⟩
    cases w with
    | nil => exact hne
    | cons t w =>
      rcases hL' hv with hv' | ⟨t', v', hw, ht⟩
      · exact ⟨v, a, hv'⟩
      · cases hw
        exact absurd he ht

/-- Words of `M` followed by a token of `stop'` start with a token that may follow a word of `L`, and
what `r` leaves in front is what `f` expects there. -/
theorem bind_after (hr : RecognizesAfter entry r L stop)
    (hmid : ∀ {ts a rest}, r ts = .ok (a, rest) → mid (front rest))
    (hf : ∀ a, RecognizesAfter mid (f a) (M a) stop')
    (hstop : ∀ {u a w b s}, L u a → M a w b → stop' (front s) → stop (front (w ++ s))) :
    RecognizesAfter entry (r >>= f) (Phrase.seq L M) stop' where
  inhabited := by
    obtain ⟨u, a, ha⟩ := hr.inhabited
    obtain ⟨v, b, hb⟩ := (hf a).inhabited
    exact ⟨u ++ v, b, a, u, v, rfl, ha, hb⟩
  closed := by
    rintro w b ⟨a, u, v, rfl, ha, hb⟩ t ht
    rcases List.mem_append.mp ht with ht | ht
    · exact hr.closed ha t ht
    · exact (hf a).closed hb t ht
  sound := by
    intro ts b rest he h
    obtain ⟨a, mid, hra, hfa⟩ := bind_eq_ok.mp h
    obtain ⟨u, rfl, ha, hu⟩ := hr.sound he hra
    obtain ⟨v, rfl, hb, hv⟩ := (hf a).sound (hmid hra) hfa
    refine ⟨u ++ v, by simp, ⟨a, u, v, rfl, ha, hb⟩, fun s hs => ?_⟩
    rw [List.append_assoc]
    exact bind_eq_ok.mpr ⟨a, v ++ s, hu _ (front_append hs), hv s hs⟩
  complete := by
    rintro w b s ⟨a, u, v, rfl, ha, hb⟩ hs
    rw [List.append_assoc]
    exact bind_eq_ok.mpr ⟨a, v ++ s, hr.complete ha (hstop ha hb hs), (hf a).complete hb hs⟩
  stuck := by
    intro ts e he h
    rcases bind_eq_error.mp h with hre | ⟨a, mid, hra, hfa⟩
    · obtain ⟨w, s, rfl, hfound, ⟨v, a, ha⟩, hw⟩ := hr.stuck he hre
      obtain ⟨v', b, hb⟩ := (hf a).inhabited
      refine ⟨w, s, rfl, hfound, ⟨v ++ v', b, a, w ++ v, v', by simp, ha, hb⟩, fun s' hs => ?_⟩
      exact bind_eq_error.mpr (.inl (hw s' hs))
    · obtain ⟨u, rfl, ha, hu⟩ := hr.sound he hra
      obtain ⟨w, s, rfl, hfound, ⟨v, b, hb⟩, hw⟩ := (hf a).stuck (hmid hra) hfa
      refine ⟨u ++ w, s, by simp, hfound, ⟨v, b, a, u, w ++ v, by simp, ha, hb⟩, fun s' hs => ?_⟩
      rw [List.append_assoc]
      exact bind_eq_error.mpr (.inr ⟨a, w ++ s', hu _ (front_append hs), hw s' hs⟩)

theorem bind (hr : RecognizesAfter entry r L stop) (hf : ∀ a, Recognizes (f a) (M a) stop')
    (hstop : ∀ {u a w b s}, L u a → M a w b → stop' (front s) → stop (front (w ++ s))) :
    RecognizesAfter entry (r >>= f) (Phrase.seq L M) stop' :=
  hr.bind_after (fun _ => trivial) hf hstop

theorem andThen (hr : RecognizesAfter entry r L always) (hf : ∀ a, Recognizes (f a) (M a) stop) :
    RecognizesAfter entry (r >>= f) (Phrase.seq L M) stop :=
  hr.bind hf fun _ _ _ => trivial

end RecognizesAfter

theorem recognizes_pure {α : Type} {stop : Token → Prop} (a : α) :
    Recognizes (pure a) (Phrase.empty a) stop where
  inhabited := ⟨[], a, rfl, rfl⟩
  closed := by rintro w b ⟨rfl, rfl⟩ t ht; cases ht
  sound := by
    intro ts b rest _ h
    cases h
    exact ⟨[], rfl, ⟨rfl, rfl⟩, fun s _ => rfl⟩
  complete := by rintro w b s ⟨rfl, rfl⟩ _; rfl
  stuck := by intro ts e _ h; cases h

/-- Token classes that hold of something, but never of the end of the input. -/
structure Visible (p : Token → Bool) : Prop where
  holds : ∃ t, p t
  notEnd : ∀ t, p t → t.kind ≠ .endOfInput

theorem Visible.front_nil {p : Token → Bool} (hp : Visible p) : p (front []) = false := by
  cases h : p (front []) with
  | false => rfl
  | true => exact absurd rfl (hp.notEnd _ h)

theorem visible_is {k : Kind} (hk : k ≠ .endOfInput) (s : Bytes) : Visible (·.is k s) where
  holds := ⟨⟨k, s, .unplaced⟩, by simp [Token.is]⟩
  notEnd := by
    intro t ht
    simp only [Token.is, Bool.and_eq_true, decide_eq_true_eq] at ht
    rw [ht.1]
    exact hk

theorem visible_kind {k : Kind} (hk : k ≠ .endOfInput) : Visible (·.kind = k) where
  holds := ⟨⟨k, [], .unplaced⟩, by simp⟩
  notEnd := by
    intro t ht
    rw [of_decide_eq_true ht]
    exact hk

theorem Visible.or {p q : Token → Bool} (hp : Visible p) (hq : Visible q) :
    Visible fun t => p t || q t where
  holds := by
    obtain ⟨t, ht⟩ := hp.holds
    exact ⟨t, by simp [ht]⟩
  notEnd := by
    intro t ht
    rcases Bool.or_eq_true_iff.mp ht with ht | ht
    · exact hp.notEnd t ht
    · exact hq.notEnd t ht

theorem Visible.front_cases {p : Token → Bool} (hp : Visible p) (ts : List Token) :
    (∃ t rest, ts = t :: rest ∧ p t) ∨ p (front ts) = false := by
  cases ts with
  | nil => exact .inr hp.front_nil
  | cons t ts =>
    cases ht : p t with
    | true => exact .inl ⟨t, ts, rfl, ht⟩
    | false => exact .inr ht

theorem require_of_front {rule : Rule} {x : Expectation} {p : Token → Bool} {ts : List Token}
    (h : p (front ts) = false) : require rule x p ts = .error ⟨rule, x, front ts⟩ := by
  cases ts with
  | nil => rfl
  | cons t ts =>
    have ht : p t = false := h
    simp [require, ht, fail]

theorem require_cons {rule : Rule} {x : Expectation} {p : Token → Bool} {t : Token}
    (h : p t) (ts : List Token) : require rule x p (t :: ts) = .ok (t, ts) := by
  simp [require, h]

theorem recognizes_require (rule : Rule) (x : Expectation) {p : Token → Bool} (hp : Visible p) :
    Recognizes (require rule x p) (Phrase.one p) always where
  inhabited := by
    obtain ⟨t, ht⟩ := hp.holds
    exact ⟨[t], t, rfl, ht⟩
  closed := by
    rintro w t ⟨rfl, ht⟩ t' ht'
    rw [List.mem_singleton.mp ht']
    exact hp.notEnd t ht
  sound := by
    intro ts a rest _ h
    rcases hp.front_cases ts with ⟨t, ts, rfl, ht⟩ | ht
    · rw [require_cons ht] at h
      cases h
      exact ⟨[a], rfl, ⟨rfl, ht⟩, fun s _ => require_cons ht s⟩
    · rw [require_of_front ht] at h
      cases h
  complete := by
    rintro w t s ⟨rfl, ht⟩ _
    exact require_cons ht s
  stuck := by
    intro ts e _ h
    rcases hp.front_cases ts with ⟨t, ts, rfl, ht⟩ | hf
    · rw [require_cons ht] at h
      cases h
    · rw [require_of_front hf] at h
      cases h
      obtain ⟨t, ht⟩ := hp.holds
      refine ⟨[], ts, rfl, rfl, ⟨[t], t, rfl, ht⟩, fun s hs => ?_⟩
      have hfs : p (front s) = false := hs ▸ hf
      exact hs ▸ require_of_front hfs

theorem recognizes_expect (rule : Rule) {k : Kind} (hk : k ≠ .endOfInput) (s : Bytes) :
    Recognizes (expect rule k s) (Phrase.one (·.is k s)) always :=
  recognizes_require _ _ (visible_is hk s)

theorem recognizes_expectKind (rule : Rule) {k : Kind} (hk : k ≠ .endOfInput) :
    Recognizes (expectKind rule k) (Phrase.one (·.kind = k)) always :=
  recognizes_require _ _ (visible_kind hk)

theorem recognizes_mark (rule : Rule) (s : Bytes) :
    Recognizes (mark rule s) (Phrase.one (·.is .punctuation s)) always :=
  recognizes_expect _ (by decide) s

end CircuitDesk.Tree.Reading
