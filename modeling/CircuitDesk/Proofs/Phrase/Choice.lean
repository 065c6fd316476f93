import CircuitDesk.Proofs.Phrase

namespace CircuitDesk.Tree.Reading

variable {α : Type} {stop : Token → Prop} {N : Phrase α} {p : Token → Bool}

theorem takeIf_cons {t : Token} (h : p t) (ts : List Token) :
    takeIf p (t :: ts) = .ok (some t, ts) := by
  simp [takeIf, h]

theorem takeIf_of_front {ts : List Token} (h : p (front ts) = false) :
    takeIf p ts = .ok (none, ts) := by
  cases ts with
  | nil => rfl
  | cons t ts =>
    have ht : p t = false := h
    simp [takeIf, ht]

theorem recognizes_takeIf {f : Option Token → Reading α} {M : Token → Phrase α} (hp : Visible p)
    (hsome : ∀ t, Recognizes (f (some t)) (M t) stop) (hnone : Recognizes (f none) N stop)
    (hN : ∀ {w a s}, N w a → stop (front s) → p (front (w ++ s)) = false) :
    Recognizes (takeIf p >>= f) (Phrase.either (Phrase.seq (Phrase.one p) M) N) stop where
  inhabited := by
    obtain ⟨w, a, ha⟩ := hnone.inhabited
    exact ⟨w, a, .inr ha⟩
  closed := by
    rintro w a (h | h)
    · obtain ⟨t, v, rfl, ht, hv⟩ := Phrase.seq_one.mp h
      intro t' ht'
      rcases List.mem_cons.mp ht' with rfl | ht'
      · exact hp.notEnd _ ht
      · exact (hsome t).closed hv t' ht'
    · exact hnone.closed h
  sound := by
    intro ts a rest _ h
    obtain ⟨o, mid, ho, hf⟩ := bind_eq_ok.mp h
    rcases hp.front_cases ts with ⟨t, ts, rfl, ht⟩ | ht
    · rw [takeIf_cons ht] at ho
      cases ho
      obtain ⟨w, rfl, ha, hs⟩ := (hsome t).sound trivial hf
      refine ⟨t :: w, rfl, .inl (Phrase.seq_one.mpr ⟨t, w, rfl, ht, ha⟩), fun s h => ?_⟩
      exact bind_eq_ok.mpr ⟨some t, w ++ s, takeIf_cons ht _, hs s h⟩
    · rw [takeIf_of_front ht] at ho
      cases ho
      obtain ⟨w, rfl, ha, hs⟩ := hnone.sound trivial hf
      refine ⟨w, rfl, .inr ha, fun s h => bind_eq_ok.mpr ⟨none, w ++ s, ?_, hs s h⟩⟩
      exact takeIf_of_front (by rwa [front_append h])
  complete := by
    rintro w a s (h | h) hs
    · obtain ⟨t, v, rfl, ht, hv⟩ := Phrase.seq_one.mp h
      exact bind_eq_ok.mpr ⟨some t, v ++ s, takeIf_cons ht _, (hsome t).complete hv hs⟩
    · exact bind_eq_ok.mpr ⟨none, w ++ s, takeIf_of_front (hN h hs), hnone.complete h hs⟩
  stuck := by
    intro ts e _ h
    rcases hp.front_cases ts with ⟨t, ts, rfl, ht⟩ | ht
    · rcases bind_eq_error.mp h with h | ⟨o, mid, ho, hf⟩
      · rw [takeIf_cons ht] at h
        cases h
      rw [takeIf_cons ht] at ho
      cases ho
      obtain ⟨w, s, rfl, hfound, ⟨v, a, ha⟩, hs⟩ := (hsome t).stuck trivial hf
      refine ⟨t :: w, s, rfl, hfound,
        ⟨v, a, .inl (Phrase.seq_one.mpr ⟨t, w ++ v, rfl, ht, ha⟩)⟩, fun s' h => ?_⟩
      exact bind_eq_error.mpr (.inr ⟨some t, w ++ s', takeIf_cons ht _, hs s' h⟩)
    · rcases bind_eq_error.mp h with h | ⟨o, mid, ho, hf⟩
      · rw [takeIf_of_front ht] at h
        cases h
      rw [takeIf_of_front ht] at ho
      cases ho
      obtain ⟨w, s, rfl, hfound, ⟨v, a, ha⟩, hs⟩ := hnone.stuck trivial hf
      refine ⟨w, s, rfl, hfound, ⟨v, a, .inr ha⟩, fun s' h => ?_⟩
      refine bind_eq_error.mpr (.inr ⟨none, w ++ s', ?_, hs s' h⟩)
      exact takeIf_of_front (by rwa [front_append h])

variable {q : Token → Prop} [DecidablePred q] {r : Reading α} {c : Token → Reading α} {L : Phrase α}

theorem peek_bind_apply (c : Token → Reading α) (ts : List Token) :
    (peek >>= c) ts = c (front ts) ts := rfl

theorem recognizes_choice (hr : Recognizes r L stop) (hc : Recognizes (peek >>= c) N stop)
    (hL : ∀ {w a s}, L w a → stop (front s) → q (front (w ++ s)))
    (hN : ∀ {w a s}, N w a → stop (front s) → ¬ q (front (w ++ s))) :
    Recognizes (peek >>= fun t => if q t then r else c t) (Phrase.either L N) stop where
  inhabited := by
    obtain ⟨w, a, ha⟩ := hr.inhabited
    exact ⟨w, a, .inl ha⟩
  closed := by
    rintro w a (h | h)
    · exact hr.closed h
    · exact hc.closed h
  sound := by
    intro ts a rest _ h
    simp only [peek_bind_apply] at h ⊢
    split at h
    · rename_i hq
      obtain ⟨w, rfl, ha, hs⟩ := hr.sound trivial h
      refine ⟨w, rfl, .inl ha, fun s h => ?_⟩
      rw [front_append h, if_pos hq]
      exact hs s h
    · rename_i hq
      obtain ⟨w, rfl, ha, hs⟩ := hc.sound trivial h
      refine ⟨w, rfl, .inr ha, fun s h => ?_⟩
      rw [if_neg (by rwa [front_append h])]
      exact hs s h
  complete := by
    rintro w a s (h | h) hs
    · rw [peek_bind_apply, if_pos (hL h hs)]
      exact hr.complete h hs
    · rw [peek_bind_apply, if_neg (hN h hs)]
      exact hc.complete h hs
  stuck := by
    intro ts e _ h
    simp only [peek_bind_apply] at h ⊢
    split at h
    · rename_i hq
      obtain ⟨w, s, rfl, hfound, ⟨v, a, ha⟩, hs⟩ := hr.stuck trivial h
      refine ⟨w, s, rfl, hfound, ⟨v, a, .inl ha⟩, fun s' h => ?_⟩
      rw [front_append h, if_pos hq]
      exact hs s' h
    · rename_i hq
      obtain ⟨w, s, rfl, hfound, ⟨v, a, ha⟩, hs⟩ := hc.stuck trivial h
      refine ⟨w, s, rfl, hfound, ⟨v, a, .inr ha⟩, fun s' h => ?_⟩
      rw [if_neg (by rwa [front_append h])]
      exact hs s' h

theorem recognizes_orFail (hr : RecognizesAfter q r L stop) (rule : Rule) (x : Expectation)
    (hL : ∀ {w a s}, L w a → stop (front s) → q (front (w ++ s))) :
    Recognizes (peek >>= fun t => if q t then r else fail rule x) L stop where
  inhabited := hr.inhabited
  closed := hr.closed
  sound := by
    intro ts a rest _ h
    simp only [peek_bind_apply] at h ⊢
    split at h
    · rename_i hq
      obtain ⟨w, rfl, ha, hs⟩ := hr.sound hq h
      refine ⟨w, rfl, ha, fun s h => ?_⟩
      rw [front_append h, if_pos hq]
      exact hs s h
    · cases h
  complete := by
    intro w a s h hs
    rw [peek_bind_apply, if_pos (hL h hs)]
    exact hr.complete h hs
  stuck := by
    intro ts e _ h
    simp only [peek_bind_apply] at h ⊢
    split at h
    · rename_i hq
      obtain ⟨w, s, rfl, hfound, hv, hs⟩ := hr.stuck hq h
      refine ⟨w, s, rfl, hfound, hv, fun s' h => ?_⟩
      rw [front_append h, if_pos hq]
      exact hs s' h
    · rename_i hq
      cases h
      refine ⟨[], ts, rfl, rfl, hr.inhabited, fun s' h => ?_⟩
      rw [List.nil_append, h, if_neg hq]
      simp only [fail, h]

end CircuitDesk.Tree.Reading
