import CircuitDesk.Proofs.Phrase

namespace CircuitDesk.Tree.Reading

variable {α : Type} {stop : Token → Prop} {item : Reading α} {L : Phrase α}

def Newlines (w : List Token) : Prop := ∀ t ∈ w, isNewline t

theorem dropWhile_newlines {w s : List Token} (hw : Newlines w) (hs : isNewline (front s) = false) :
    (w ++ s).dropWhile isNewline = s := by
  induction w with
  | nil =>
    cases s with
    | nil => rfl
    | cons t s =>
      have ht : isNewline t = false := hs
      simp [ht]
  | cons t w ih =>
    have ht := hw t (by simp)
    simpa [ht] using ih fun t ht => hw t (by simp [ht])

theorem newlines_split (ts : List Token) :
    ∃ w s, ts = w ++ s ∧ Newlines w ∧ isNewline (front s) = false := by
  refine ⟨ts.takeWhile isNewline, ts.dropWhile isNewline, List.takeWhile_append_dropWhile.symm, ?_, ?_⟩
  · intro t ht
    exact List.all_eq_true.mp List.all_takeWhile t ht
  · have h := List.head?_dropWhile_not isNewline ts
    cases hd : ts.dropWhile isNewline with
    | nil => rfl
    | cons t rest => simpa [hd, front] using h

theorem Newlines.append {u v : List Token} (hu : Newlines u) (hv : Newlines v) : Newlines (u ++ v) := by
  intro t ht
  rcases List.mem_append.mp ht with ht | ht
  · exact hu t ht
  · exact hv t ht

theorem newlines_nil : Newlines [] := by simp [Newlines]

theorem Newlines.closed {w : List Token} (h : Newlines w) : ∀ t ∈ w, t.kind ≠ .endOfInput := by
  intro t ht hk
  have := h t ht
  simp [isNewline, hk] at this

theorem recognizes_skipNewlines :
    Recognizes skipNewlines (fun w _ => Newlines w) (fun t => isNewline t = false) where
  inhabited := ⟨[], (), by simp [Newlines]⟩
  closed h := h.closed
  sound := by
    intro ts a rest _ h
    obtain ⟨w, s, rfl, hw, hf⟩ := newlines_split ts
    simp only [skipNewlines, dropWhile_newlines hw hf] at h
    cases h
    refine ⟨w, rfl, hw, fun s hs => ?_⟩
    simp only [skipNewlines, dropWhile_newlines hw (hs ▸ hf)]
  complete := by
    intro w a s hw hs
    simp only [skipNewlines, dropWhile_newlines hw hs]
  stuck := by intro ts e _ h; cases h

def EndsLine (t : Token) : Prop := t.kind = .newline ∨ t.kind = .endOfInput

theorem recognizes_endStatement (rule : Rule) :
    Recognizes (endStatement rule) (fun w _ => w = []) EndsLine where
  inhabited := ⟨[], (), rfl⟩
  closed := by rintro w a rfl t ht; cases ht
  sound := by
    intro ts a rest _ h
    simp only [endStatement] at h
    split at h
    · rename_i ht
      cases h
      refine ⟨[], rfl, rfl, fun s hs => ?_⟩
      rw [← hs] at ht
      exact if_pos ht
    · cases h
  complete := by
    rintro w a s rfl hs
    exact if_pos hs
  stuck := by
    intro ts e _ h
    simp only [endStatement] at h
    split at h
    · cases h
    · rename_i ht
      cases h
      refine ⟨[], ts, rfl, rfl, ⟨[], (), rfl⟩, fun s hs => ?_⟩
      simp only [List.nil_append, endStatement, hs, if_neg ht, fail]

theorem endStatement_endsLine {rule : Rule} {ts rest : List Token} {a : Unit}
    (h : endStatement rule ts = .ok (a, rest)) : EndsLine (front rest) := by
  simp only [endStatement] at h
  split at h
  · rename_i ht
    cases h
    exact ht
  · cases h

inductive Lines (L : Phrase α) : Phrase (List α)
  | nil : Lines L [] []
  | cons {nl w a ws as} : Newlines nl → nl ≠ [] → L w a → Lines L ws as → Lines L (nl ++ w ++ ws) (a :: as)

/-- Lines and the blank lines behind them, of which there is at least one unless the last statement may
be followed by what closes the lines. -/
def Block (mayClose : Prop) (L : Phrase α) : Phrase (List α) := fun w as =>
  ∃ ls nl, w = ls ++ nl ∧ Lines L ls as ∧ Newlines nl ∧ (nl = [] → mayClose)

variable {last : Token → Bool} {mayClose : Prop}

theorem repeatUntil_eq (h : Shrinks item) (ts : List Token) :
    repeatUntil last item h ts =
      if last (front (ts.dropWhile isNewline)) then .ok ([], ts.dropWhile isNewline)
      else match item (ts.dropWhile isNewline) with
        | .error e => .error e
        | .ok (a, rest) =>
          match repeatUntil last item h rest with
          | .error e => .error e
          | .ok (as, rest) => .ok (a :: as, rest) := by
  rw [repeatUntil]
  split
  · rfl
  · split
    · simp [*]
    · rename_i hitem
      dsimp only
      generalize item (ts.dropWhile isNewline) = r at hitem ⊢
      subst hitem
      rfl

theorem repeatUntil_last (h : Shrinks item) {w s : List Token} (hw : Newlines w)
    (hn : isNewline (front s) = false) (hs : last (front s)) :
    repeatUntil last item h (w ++ s) = .ok ([], s) := by
  rw [repeatUntil_eq, dropWhile_newlines hw hn, if_pos hs]

theorem repeatUntil_error (h : Shrinks item) {w s : List Token} {e : SyntaxFault} (hw : Newlines w)
    (hn : isNewline (front s) = false) (hs : last (front s) = false) (hi : item s = .error e) :
    repeatUntil last item h (w ++ s) = .error e := by
  rw [repeatUntil_eq, dropWhile_newlines hw hn, if_neg (by simp [hs]), hi]

theorem repeatUntil_ok (h : Shrinks item) {w s rest : List Token} {a : α} (hw : Newlines w)
    (hn : isNewline (front s) = false) (hs : last (front s) = false) (hi : item s = .ok (a, rest)) :
    repeatUntil last item h (w ++ s) =
      (repeatUntil last item h rest).map fun p => (a :: p.1, p.2) := by
  rw [repeatUntil_eq, dropWhile_newlines hw hn, if_neg (by simp [hs]), hi]
  simp only
  cases repeatUntil last item h rest <;> rfl

def newlineToken : Token := ⟨.newline, "\n", .unplaced⟩

theorem newlines_newlineToken : Newlines [newlineToken] := by
  simp [Newlines, isNewline, newlineToken]

theorem block_inhabited (mayClose : Prop) (L : Phrase α) : ∃ w as, Block mayClose L w as :=
  ⟨[newlineToken], [], [], _, rfl, .nil, newlines_newlineToken, by simp⟩

theorem block_front {w s : List Token} {as : List α} (hw : Block mayClose L w as)
    (hs : mayClose → EndsLine (front s)) : EndsLine (front (w ++ s)) := by
  obtain ⟨ls, nl, rfl, hls, hnl, hc⟩ := hw
  have first {nl r : List Token} (h : Newlines nl) (hne : nl ≠ []) : EndsLine (front (nl ++ r)) := by
    obtain ⟨t, nl, rfl⟩ := List.exists_cons_of_ne_nil hne
    exact .inl (of_decide_eq_true (h t (by simp)))
  cases hls with
  | nil =>
    by_cases hne : nl = []
    · subst hne
      exact hs (hc rfl)
    · exact first hnl hne
  | cons hnl' hne _ _ =>
    simp only [List.append_assoc]
    exact first hnl' hne

theorem repeatUntil_front {h : Shrinks item} {ts rest : List Token} {as : List α}
    (hr : repeatUntil last item h ts = .ok (as, rest)) : last (front rest) = true := by
  fun_induction repeatUntil last item h ts generalizing as rest with
  | case1 =>
    rename_i hl
    cases hr
    exact hl
  | case2 => cases hr
  | case3 => cases hr
  | case4 =>
    rename_i hrec ih
    cases hr
    exact ih hrec

theorem item_not_endsLine (hi : Recognizes item L stop)
    (hfirst : ∀ {w a}, L w a → ∃ t v, w = t :: v ∧ isNewline t = false ∧ last t = false) {w s : List Token}
    {a : α} (ha : L w a) : ¬ EndsLine (front (w ++ s)) := by
  obtain ⟨t, v, rfl, ht, -⟩ := hfirst ha
  rintro (hk | hk)
  · simp [isNewline, front] at ht hk
    exact ht hk
  · exact hi.closed ha t (by simp) hk

theorem recognizes_repeatUntil (h : Shrinks item) (hi : Recognizes item L EndsLine)
    (hends : ∀ {ts a rest}, item ts = .ok (a, rest) → EndsLine (front rest))
    (hfirst : ∀ {w a}, L w a → ∃ t v, w = t :: v ∧ isNewline t = false ∧ last t = false)
    (hlast : ∀ t, last t → isNewline t = false ∧ (EndsLine t ↔ mayClose)) :
    RecognizesAfter EndsLine (repeatUntil last item h) (Block mayClose L) (last · = true) where
  inhabited := block_inhabited mayClose L
  closed := by
    rintro w as ⟨ls, nl, rfl, hls, hnl, -⟩ t ht
    rcases List.mem_append.mp ht with ht | ht
    · induction hls with
      | nil => cases ht
      | cons hnl' _ ha _ ih =>
        simp only [List.append_assoc, List.mem_append] at ht
        rcases ht with ht | ht | ht
        · exact hnl'.closed t ht
        · exact hi.closed ha t ht
        · exact ih (by simp [ht]) ht
    · exact hnl.closed t ht
  sound := by
    intro ts
    induction hlen : ts.length using Nat.strongRecOn generalizing ts with
    | _ n ih =>
    intro as rest he hr
    obtain ⟨nl, ts, rfl, hnl, hn⟩ := newlines_split ts
    cases hl : last (front ts) with
    | true =>
      rw [repeatUntil_last h hnl hn hl] at hr
      cases hr
      refine ⟨nl, rfl, ⟨[], nl, rfl, .nil, hnl, ?_⟩, fun s hs => ?_⟩
      · rintro rfl
        exact (hlast _ hl).2.mp he
      · exact repeatUntil_last h hnl (hs ▸ hn) (hs ▸ hl)
    | false =>
      cases hitem : item ts with
      | error e =>
        rw [repeatUntil_error h hnl hn hl hitem] at hr
        cases hr
      | ok p =>
        obtain ⟨a, mid⟩ := p
        obtain ⟨u, rfl, ha, hlocal⟩ := hi.sound trivial hitem
        rw [repeatUntil_ok h hnl hn hl hitem] at hr
        cases hrec : repeatUntil last item h mid with
        | error e => rw [hrec] at hr; cases hr
        | ok p =>
          obtain ⟨as, rest⟩ := p
          rw [hrec] at hr
          cases hr
          have hlt : mid.length < n := by
            have := h _ _ _ hitem
            simp only [List.length_append] at this hlen
            omega
          obtain ⟨_, rfl, ⟨ls, nl', rfl, hls, hnl', hc⟩, hrest⟩ := ih _ hlt rfl (hends hitem) hrec
          have hne : nl ≠ [] := by
            rintro rfl
            exact item_not_endsLine hi hfirst ha he
          refine ⟨nl ++ u ++ (ls ++ nl'), by simp,
            ⟨nl ++ u ++ ls, nl', by simp, .cons hnl hne ha hls, hnl', hc⟩, fun s hs => ?_⟩
          have hf := front_append (u := ls ++ nl') hs
          have hu := front_append (u := u) hf
          rw [List.append_assoc, List.append_assoc,
            repeatUntil_ok h hnl (hu ▸ hn) (hu ▸ hl) (hlocal _ hf), hrest s hs]
          rfl
  complete := by
    rintro w as s ⟨ls, nl, rfl, hls, hnl, hc⟩ hs
    induction hls with
    | nil => exact repeatUntil_last h hnl (hlast _ hs).1 hs
    | @cons nl' u a ws as hnl' hne ha hws ih =>
      have hf := block_front ⟨ws, nl, rfl, hws, hnl, hc⟩ fun hm => (hlast _ hs).2.mpr hm
      obtain ⟨t, v, rfl, ht, hl⟩ := hfirst ha
      have hitem := hi.complete ha hf
      simp only [List.append_assoc] at hitem ih ⊢
      rw [repeatUntil_ok h hnl' (by exact ht) (by exact hl) hitem, ih]
      rfl
  stuck := by
    intro ts
    induction hlen : ts.length using Nat.strongRecOn generalizing ts with
    | _ n ih =>
    intro e he hr
    obtain ⟨nl, ts, rfl, hnl, hn⟩ := newlines_split ts
    cases hl : last (front ts) with
    | true =>
      rw [repeatUntil_last h hnl hn hl] at hr
      cases hr
    | false =>
      cases hitem : item ts with
      | error e =>
        rw [repeatUntil_error h hnl hn hl hitem] at hr
        cases hr
        obtain ⟨u, s, rfl, hfound, ⟨v, a, ha⟩, hlocal⟩ := hi.stuck trivial hitem
        refine ⟨nl ++ u, s, by simp, hfound, ?_, fun s' hs => ?_⟩
        · by_cases hne : nl = []
          -- the input has ended, so nothing of the item was read
          · subst hne
            have hu : u = [] := by
              cases u with
              | nil => rfl
              | cons t u =>
                rcases he with hk | hk
                · exact absurd hk (of_decide_eq_false hn)
                · exact absurd hk (hi.closed ha t (by simp))
            subst hu
            exact block_inhabited mayClose L
          · exact ⟨v ++ [newlineToken], [a], nl ++ (u ++ v) ++ [], [newlineToken], by simp,
              .cons hnl hne ha .nil, newlines_newlineToken, by simp⟩
        · have hf := front_append (u := u) hs
          rw [List.append_assoc]
          exact repeatUntil_error h hnl (hf ▸ hn) (hf ▸ hl) (hlocal s' hs)
      | ok p =>
        obtain ⟨a, mid⟩ := p
        obtain ⟨u, rfl, ha, hlocal⟩ := hi.sound trivial hitem
        rw [repeatUntil_ok h hnl hn hl hitem] at hr
        cases hrec : repeatUntil last item h mid with
        | ok p => rw [hrec] at hr; cases hr
        | error e =>
          rw [hrec] at hr
          cases hr
          have hlt : mid.length < n := by
            have := h _ _ _ hitem
            simp only [List.length_append] at this hlen
            omega
          obtain ⟨w, s, rfl, hfound, ⟨v, as, ls, nl', hw, hls, hnl', hc⟩, hrest⟩ :=
            ih _ hlt rfl (hends hitem) hrec
          have hne : nl ≠ [] := by
            rintro rfl
            exact item_not_endsLine hi hfirst ha he
          refine ⟨nl ++ u ++ w, s, by simp, hfound,
            ⟨v, a :: as, nl ++ u ++ ls, nl', by simp [hw], .cons hnl hne ha hls, hnl', hc⟩, fun s' hs => ?_⟩
          have hf := front_append (u := w) hs
          have hu := front_append (u := u) hf
          rw [List.append_assoc, List.append_assoc,
            repeatUntil_ok h hnl (hu ▸ hn) (hu ▸ hl) (hlocal _ hf), hrest s' hs]
          rfl

end CircuitDesk.Tree.Reading
