import CircuitDesk.Proofs.Moves

/-!
The bound on the workers of a batch is a bound on the parses that somebody waits for. A worker that gives up frees its
slot and leaves its parse running, so that each input given up may add one parse to those running at once.
-/
namespace CircuitDesk.Batch

variable {r : Runner} {context : Option StopCause} {inputs : List Input} {i k : Nat} {j j' : Job} {m : Move}
  {s s' : State} {e : Event} {es : List Event}

def Event.isGivingUp : Event → Bool
  | .move _ .giveUp => true
  | _ => false

namespace Job

/-- Whether the parse is on its way and the worker has turned away from it. -/
def abandoned (j : Job) : Bool := j.parse ≠ .idle ∧ j.parse ≠ .delivered ∧ j.worker ≠ .busy

theorem holdsSlot_moves (h : j.Moves r context m j') (hm : m ≠ .enter) (hslot : j'.holdsSlot) : j.holdsSlot := by
  cases h with
  | enter => exact absurd rfl hm
  | release => simp [holdsSlot] at hslot
  | parseStarts | parseReturns | deliver | deadlinePasses => exact hslot
  | fail hw | spawn hw | takeOutcome hw | giveUp hw => simp [holdsSlot, hw]

theorem abandoned_moves (h : j.Moves r context m j') (hm : m ≠ .giveUp) (habandoned : j'.abandoned) : j.abandoned := by
  cases h with
  | giveUp => exact absurd rfl hm
  | spawn => simp [abandoned] at habandoned
  | deliver => simp [abandoned] at habandoned
  | takeOutcome hw hp => simp [abandoned, finish, hp] at habandoned
  | parseStarts hp | parseReturns hp => simpa [abandoned, hp] using habandoned
  | deadlinePasses => exact habandoned
  | enter hw | fail hw | release hw => simpa [abandoned, finish, hw] using habandoned

@[simp] theorem holdsSlot_endContext (j : Job) (c : StopCause) : (j.endContext c).holdsSlot = j.holdsSlot := by
  obtain ⟨stop, hstop⟩ := j.endContext_eq c
  rw [hstop]
  rfl

@[simp] theorem abandoned_endContext (j : Job) (c : StopCause) : (j.endContext c).abandoned = j.abandoned := by
  obtain ⟨stop, hstop⟩ := j.endContext_eq c
  rw [hstop]
  rfl

theorem holdsSlot_or_abandoned (h : j.isParsing) : j.holdsSlot ∨ j.abandoned := by
  have hparse : j.parse = .running := by simpa [isParsing] using h
  by_cases hw : j.worker = .busy
  · exact .inl (by simp [holdsSlot, hw])
  · exact .inr (by simp [abandoned, hparse, hw])

end Job

theorem countP_set_le {α : Type} {p : α → Bool} {l : List α} {a b : α} (h : l[i]? = some a) (hp : p b → p a) :
    (l.set i b).countP p ≤ l.countP p := by
  obtain ⟨hi, rfl⟩ := List.getElem?_eq_some_iff.mp h
  rw [List.countP_set hi]
  by_cases hb : p b
  · have hpos : 0 < l.countP p := List.countP_pos_iff.mpr ⟨_, List.getElem_mem hi, hp hb⟩
    rw [if_pos hb, if_pos (hp hb)]
    omega
  · rw [if_neg hb]
    omega

theorem countP_set_le_succ {α : Type} {p : α → Bool} {l : List α} {a : α} (h : l[i]? = some a) (b : α) :
    (l.set i b).countP p ≤ l.countP p + 1 := by
  obtain ⟨hi, rfl⟩ := List.getElem?_eq_some_iff.mp h
  rw [List.countP_set hi]
  split <;> split <;> omega

theorem countP_le_add {α : Type} {p q t : α → Bool} (h : ∀ a, p a → q a ∨ t a) (l : List α) :
    l.countP p ≤ l.countP q + l.countP t := by
  induction l with
  | nil => simp
  | cons a l ih =>
    rw [List.countP_cons, List.countP_cons, List.countP_cons]
    by_cases hp : p a
    · rcases h a hp with hq | ht
      · rw [if_pos hp, if_pos hq]
        omega
      · rw [if_pos hp, if_pos ht]
        omega
    · rw [if_neg hp]
      omega

structure Slots (r : Runner) (es : List Event) (s : State) : Prop where
  taken : s.slotsTaken ≤ r.workers
  abandoned : s.jobs.countP Job.abandoned ≤ es.countP Event.isGivingUp
  givenUp : ∀ k j, s.jobs[k]? = some j → j.abandoned → .move k .giveUp ∈ es

namespace Slots

theorem taken_step (h : s.slotsTaken ≤ r.workers) (hs : s.step r e = some s') : s'.slotsTaken ≤ r.workers := by
  cases e with
  | move i m =>
    obtain ⟨j, j', hj, hmoves, rfl, hmay⟩ := State.step_move hs
    -- only entering takes a slot, and it needs a free one
    by_cases hm : m = .enter
    · have hfree : s.slotsTaken < r.workers := by
        have hboth : s.enteredBefore i ∧ s.slotsTaken < r.workers := by simpa [State.mayEnter] using hmay hm
        exact hboth.2
      have hmore : (s.put i j j').slotsTaken ≤ s.slotsTaken + 1 := countP_set_le_succ hj j'
      omega
    · have hless : (s.put i j j').slotsTaken ≤ s.slotsTaken := countP_set_le hj (Job.holdsSlot_moves hmoves hm)
      omega
  | contextEnds c =>
    obtain ⟨-, rfl⟩ := State.step_contextEnds hs
    simpa [State.slotsTaken, List.countP_map, Function.comp_def] using h

theorem abandoned_step (h : s.jobs.countP Job.abandoned ≤ es.countP Event.isGivingUp) (hs : s.step r e = some s') :
    s'.jobs.countP Job.abandoned ≤ (es ++ [e]).countP Event.isGivingUp := by
  rw [List.countP_append]
  cases e with
  | move i m =>
    obtain ⟨j, j', hj, hmoves, rfl, -⟩ := State.step_move hs
    by_cases hm : m = .giveUp
    · subst hm
      have hmore : (s.put i j j').jobs.countP Job.abandoned ≤ s.jobs.countP Job.abandoned + 1 :=
        countP_set_le_succ hj j'
      have hcount : [Event.move i .giveUp].countP Event.isGivingUp = 1 := rfl
      omega
    · have hless : (s.put i j j').jobs.countP Job.abandoned ≤ s.jobs.countP Job.abandoned :=
        countP_set_le hj (Job.abandoned_moves hmoves hm)
      omega
  | contextEnds c =>
    obtain ⟨-, rfl⟩ := State.step_contextEnds hs
    have hsame : (s.jobs.map (·.endContext c)).countP Job.abandoned = s.jobs.countP Job.abandoned := by
      simp [List.countP_map, Function.comp_def]
    rw [hsame]
    omega

theorem givenUp_follows (h : j.abandoned → .move k .giveUp ∈ es) (hf : j.Follows r context k e j') :
    j'.abandoned → .move k .giveUp ∈ es ++ [e] := by
  intro habandoned
  cases hf with
  | @own m _ hm =>
    by_cases hgive : m = .giveUp
    · simp [hgive]
    · exact List.mem_append_left _ (h (Job.abandoned_moves hm hgive habandoned))
  | other m hi => exact List.mem_append_left _ (h habandoned)
  | contextEnds c =>
    rw [Job.abandoned_endContext] at habandoned
    exact List.mem_append_left _ (h habandoned)

theorem step (h : Slots r es s) (hs : s.step r e = some s') : Slots r (es ++ [e]) s' where
  taken := taken_step h.taken hs
  abandoned := abandoned_step h.abandoned hs
  givenUp k j' hj' := by
    obtain ⟨j, hj, hf⟩ := State.step_job hs hj'
    exact givenUp_follows (h.givenUp k j hj) hf

theorem initial (inputs : List Input) (context : Option StopCause) : Slots r [] (State.initial inputs context) := by
  have hnone : ∀ j ∈ inputs.map Job.new, j.holdsSlot = false ∧ j.abandoned = false := by
    intro j hj
    obtain ⟨input, -, rfl⟩ := List.mem_map.mp hj
    exact ⟨rfl, rfl⟩
  have hslots : (State.initial inputs context).slotsTaken = 0 :=
    List.countP_eq_zero.mpr fun j hj => by simp [(hnone j hj).1]
  have habandoned : (State.initial inputs context).jobs.countP Job.abandoned = 0 :=
    List.countP_eq_zero.mpr fun j hj => by simp [(hnone j hj).2]
  refine ⟨by omega, by omega, fun k j hj hleft => ?_⟩
  rw [(hnone j (List.mem_of_getElem? hj)).2] at hleft
  cases hleft

end Slots

structure Bounded (r : Runner) (es : List Event) (s : State) : Prop where
  waitedFor : (s.jobs.countP fun j => j.isParsing ∧ j.worker = .busy) ≤ r.workers
  abandoned : ∀ i j, s.jobs[i]? = some j → j.isParsing → j.worker ≠ .busy → .move i .giveUp ∈ es
  parsing : s.parsingCount ≤ r.workers + es.countP Event.isGivingUp

/-- At most as many parses run as there are workers, and one more for each input that was given up. -/
theorem bounded_of_run (h : (State.initial inputs context).run r es = some s) : Bounded r es s := by
  have hslots : Slots r es s :=
    State.run_induction (P := fun es s => Slots r es s) (.initial inputs context) (fun _ _ _ _ => Slots.step) h
  have hbusy : (s.jobs.countP fun j => j.isParsing ∧ j.worker = .busy) ≤ s.slotsTaken := by
    refine List.countP_mono_left fun j _ hj => ?_
    have hw : j.worker = .busy := (of_decide_eq_true hj).2
    simp [Job.holdsSlot, hw]
  have hsplit : s.parsingCount ≤ s.slotsTaken + s.jobs.countP Job.abandoned :=
    countP_le_add (fun _ => Job.holdsSlot_or_abandoned) s.jobs
  have htaken := hslots.taken
  have habandoned := hslots.abandoned
  refine ⟨by omega, fun i j hj hparsing hw => ?_, by omega⟩
  have hrunning : j.parse = .running := by simpa [Job.isParsing] using hparsing
  exact hslots.givenUp i j hj (by simp [Job.abandoned, hrunning, hw])

def overtaken : Option State :=
  (State.initial [.ofText "a" "Inputs:", .ofText "b" "Inputs: 0:Qbit"] none).run (.withWorkers .standard 1)
    [.move 0 .enter, .move 0 .begin, .move 0 .parseStarts, .move 0 .deadlinePasses, .move 0 .giveUp, .move 0 .release,
      .move 1 .enter, .move 1 .begin, .move 1 .parseStarts]

theorem bounded_of_overtaken : ∃ es s, overtaken = some s ∧ es.countP Event.isGivingUp = 1 ∧
    Bounded (.withWorkers .standard 1) es s := by
  obtain ⟨s, hs⟩ : ∃ s, overtaken = some s := ⟨_, rfl⟩
  exact ⟨_, s, hs, by decide, bounded_of_run hs⟩

/-- A second parse starts before the first has returned, and there is one worker. -/
theorem not_parsing_le_workers : ¬ ∀ (r : Runner) (inputs : List Input) (context : Option StopCause) (es : List Event)
    (s : State), 1 ≤ r.workers → (State.initial inputs context).run r es = some s → s.parsingCount ≤ r.workers := by
  intro h
  have htwo : overtaken.map State.parsingCount = some 2 := rfl
  obtain ⟨s, hs, hparsing⟩ := Option.map_eq_some_iff.mp htwo
  have hle := h (.withWorkers .standard 1) _ _ _ s (by decide) hs
  rw [hparsing] at hle
  exact absurd hle (by decide)

end CircuitDesk.Batch
