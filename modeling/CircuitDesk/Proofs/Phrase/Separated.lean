import CircuitDesk.Proofs.Phrase

namespace CircuitDesk.Tree.Reading

variable {α : Type} {stop : Token → Prop} {item : Reading α} {L : Phrase α}

def isComma (t : Token) : Bool := t.is .punctuation ","

inductive Separated (L : Phrase α) : Phrase (List α)
  | one {w a} : L w a → Separated L w [a]
  | cons {w a comma ws as} : L w a → isComma comma → Separated L ws as →
      Separated L (w ++ comma :: ws) (a :: as)

theorem commaSeparated_eq (h : NeverGrows item) (ts : List Token) :
    commaSeparated item h ts = match item ts with
      | .error e => .error e
      | .ok (a, []) => .ok ([a], [])
      | .ok (a, t :: rest) =>
        if isComma t then
          match commaSeparated item h rest with
          | .error e => .error e
          | .ok (as, rest) => .ok (a :: as, rest)
        else .ok ([a], t :: rest) := by
  rw [commaSeparated]
  split
  · simp [*]
  · simp [*]
  · simp only [*, isComma]
    rfl

theorem commaSeparated_last (h : NeverGrows item) {ts rest : List Token} {a : α}
    (hi : item ts = .ok (a, rest)) (hr : isComma (front rest) = false) :
    commaSeparated item h ts = .ok ([a], rest) := by
  rw [commaSeparated_eq, hi]
  cases rest with
  | nil => rfl
  | cons t rest =>
    have ht : isComma t = false := hr
    simp [ht]

theorem commaSeparated_cons (h : NeverGrows item) {ts rest : List Token} {a : α} {comma : Token}
    (hi : item ts = .ok (a, comma :: rest)) (hc : isComma comma) :
    commaSeparated item h ts = match commaSeparated item h rest with
      | .error e => .error e
      | .ok (as, rest) => .ok (a :: as, rest) := by
  rw [commaSeparated_eq, hi]
  simp [hc]

theorem visible_isComma : Visible isComma := visible_is (by decide) ","

theorem recognizes_commaSeparated (h : NeverGrows item) (hi : Recognizes item L stop)
    (hstop : ∀ t, isComma t → stop t) :
    Recognizes (commaSeparated item h) (Separated L) (fun t => stop t ∧ isComma t = false) where
  inhabited := by
    obtain ⟨w, a, ha⟩ := hi.inhabited
    exact ⟨w, [a], .one ha⟩
  closed := by
    intro w as has
    induction has with
    | one ha => exact hi.closed ha
    | cons ha hc _ ih =>
      intro t ht
      rcases List.mem_append.mp ht with ht | ht
      · exact hi.closed ha t ht
      rcases List.mem_cons.mp ht with rfl | ht
      · exact visible_isComma.notEnd _ hc
      · exact ih t ht
  sound := by
    intro ts as rest _ hr
    fun_induction commaSeparated item h ts generalizing as rest with
    | case1 => cases hr
    | case2 ts a hts =>
      cases hr
      obtain ⟨w, rfl, ha, hs⟩ := hi.sound trivial hts
      refine ⟨w, rfl, .one ha, fun s h => commaSeparated_last _ (hs s h) ?_⟩
      rw [h]
      exact visible_isComma.front_nil
    | case3 => cases hr
    | case4 ts a comma mid hts _ hc as rest hrec ih =>
      cases hr
      obtain ⟨w, rfl, ha, hs⟩ := hi.sound trivial hts
      obtain ⟨ws, rfl, has, hss⟩ := ih trivial hrec
      refine ⟨w ++ comma :: ws, by simp, .cons ha hc has, fun s h => ?_⟩
      rw [List.append_assoc, List.cons_append, commaSeparated_cons _ (hs (comma :: (ws ++ s)) rfl) hc, hss s h]
    | case5 ts a t mid hts _ hc =>
      cases hr
      obtain ⟨w, rfl, ha, hs⟩ := hi.sound trivial hts
      refine ⟨w, rfl, .one ha, fun s h => commaSeparated_last _ (hs s h) ?_⟩
      rw [h]
      exact Bool.eq_false_iff.mpr hc
  complete := by
    intro w as s has hs
    induction has with
    | one ha => exact commaSeparated_last h (hi.complete ha hs.1) hs.2
    | cons ha hc _ ih =>
      rw [List.append_assoc, List.cons_append, commaSeparated_cons h (hi.complete ha (hstop _ hc)) hc, ih]
  stuck := by
    intro ts e _ hr
    fun_induction commaSeparated item h ts generalizing e with
    | case1 ts e hts =>
      cases hr
      obtain ⟨w, s, rfl, hfound, ⟨v, a, ha⟩, hs⟩ := hi.stuck trivial hts
      refine ⟨w, s, rfl, hfound, ⟨v, [a], .one ha⟩, fun s' h' => ?_⟩
      rw [commaSeparated_eq, hs s' h']
    | case2 => cases hr
    | case3 ts a comma mid hts _ hc e hrec ih =>
      cases hr
      obtain ⟨w, rfl, ha, hs⟩ := hi.sound trivial hts
      obtain ⟨ws, s, rfl, hfound, ⟨v, as, has⟩, hss⟩ := ih trivial hrec
      refine ⟨w ++ comma :: ws, s, by simp, hfound, ⟨v, a :: as, ?_⟩, fun s' h' => ?_⟩
      · rw [List.append_assoc, List.cons_append]
        exact .cons ha hc has
      · rw [List.append_assoc, List.cons_append, commaSeparated_cons _ (hs (comma :: (ws ++ s')) rfl) hc, hss s' h']
    | case4 => cases hr
    | case5 => cases hr

end CircuitDesk.Tree.Reading
