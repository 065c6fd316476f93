import CircuitDesk.Batch.Run
import Mathlib.Data.List.Induction

namespace CircuitDesk.Batch

variable {r : Runner} {context : Option StopCause} {inputs : List Input} {i k : Nat} {j j' : Job} {m : Move}
  {s s' : State} {e : Event} {es : List Event}

namespace Job

/-- `Moves r context j m j'` says that the move `m` is possible for the job `j` and leaves the job `j'`. -/
inductive Moves (r : Runner) (context : Option StopCause) (j : Job) : Move → Job → Prop
  | enter : j.worker = .waiting → Moves r context j .enter { j with worker := .entered }
  | fail {error : Files.Error} : j.worker = .entered → j.input.source = .error error →
      Moves r context j .begin (j.finish (.unreadable error))
  | spawn {text : Bytes} : j.worker = .entered → j.input.source = .ok text →
      Moves r context j .begin { j with worker := .busy, parse := .spawned, stop := context }
  | parseStarts : j.parse = .spawned → Moves r context j .parseStarts { j with parse := .running }
  | parseReturns : j.parse = .running → Moves r context j .parseReturns { j with parse := .returned }
  | deliver : j.parse = .returned → Moves r context j .deliver { j with parse := .delivered }
  | deadlinePasses : j.worker = .busy → r.hasTimeout →
      Moves r context j .deadlinePasses { j with stop := j.stop.or (some .deadline) }
  | takeOutcome : j.worker = .busy → j.parse = .delivered →
      Moves r context j .takeOutcome (j.finish (r.outcome j.input))
  | giveUp {c : StopCause} : j.worker = .busy → j.stop = some c → Moves r context j .giveUp (j.finish (r.stopped c))
  | release {res : Result} : j.worker = .done res → Moves r context j .release { j with worker := .released res }

theorem moves_of_move? (h : j.move? r context m = some j') : j.Moves r context m j' := by
  cases m with
  | enter =>
    obtain ⟨hw, rfl⟩ : j.worker = .waiting ∧ _ = j' := by simpa [move?] using h
    exact .enter hw
  | begin =>
    simp only [move?, Option.ite_none_right_eq_some] at h
    obtain ⟨hw, h⟩ := h
    cases hsource : j.input.source with
    | error error =>
      rw [hsource] at h
      obtain rfl := Option.some.inj h
      exact .fail hw hsource
    | ok text =>
      rw [hsource] at h
      obtain rfl := Option.some.inj h
      exact .spawn hw hsource
  | parseStarts =>
    obtain ⟨hp, rfl⟩ : j.parse = .spawned ∧ _ = j' := by simpa [move?] using h
    exact .parseStarts hp
  | parseReturns =>
    obtain ⟨hp, rfl⟩ : j.parse = .running ∧ _ = j' := by simpa [move?] using h
    exact .parseReturns hp
  | deliver =>
    obtain ⟨hp, rfl⟩ : j.parse = .returned ∧ _ = j' := by simpa [move?] using h
    exact .deliver hp
  | deadlinePasses =>
    simp only [move?, Option.ite_none_right_eq_some] at h
    obtain ⟨⟨hw, ht⟩, h⟩ := h
    obtain rfl := Option.some.inj h
    exact .deadlinePasses hw ht
  | takeOutcome =>
    obtain ⟨⟨hw, hp⟩, rfl⟩ : (j.worker = .busy ∧ j.parse = .delivered) ∧ _ = j' := by simpa [move?] using h
    exact .takeOutcome hw hp
  | giveUp =>
    obtain ⟨hw, c, hc, rfl⟩ : j.worker = .busy ∧ ∃ c, j.stop = some c ∧ _ = j' := by simpa [move?] using h
    exact .giveUp hw hc
  | release =>
    simp only [move?] at h
    split at h
    · next res hw =>
      obtain rfl := Option.some.inj h
      exact .release hw
    · cases h

theorem Moves.move? (h : j.Moves r context m j') : j.move? r context m = some j' := by
  cases h <;> simp [Job.move?, *]

/-- `Follows r context k j e j'` says what an event makes of the job with the number `k`. -/
inductive Follows (r : Runner) (context : Option StopCause) (k : Nat) (j : Job) : Event → Job → Prop
  | own {m : Move} {j' : Job} : j.Moves r context m j' → Follows r context k j (.move k m) j'
  | other {i : Nat} (m : Move) : i ≠ k → Follows r context k j (.move i m) j
  | contextEnds (c : StopCause) : Follows r context k j (.contextEnds c) (j.endContext c)

theorem endContext_eq (j : Job) (c : StopCause) : ∃ stop, j.endContext c = { j with stop := stop } := by
  unfold endContext
  split
  · exact ⟨_, rfl⟩
  · exact ⟨_, rfl⟩

end Job

namespace State

theorem step_move (h : s.step r (.move i m) = some s') :
    ∃ j j', s.jobs[i]? = some j ∧ j.Moves r s.context m j' ∧ s' = s.put i j j' ∧ (m = .enter → s.mayEnter r i) := by
  simp only [step] at h
  cases hj : s.jobs[i]? with
  | none => simp [hj] at h
  | some j =>
    rw [hj] at h
    simp only [Option.ite_none_left_eq_some, Option.map_eq_some_iff] at h
    obtain ⟨hmay, j', hmove, rfl⟩ := h
    exact ⟨j, j', rfl, Job.moves_of_move? hmove, rfl, fun hm => Decidable.not_not.mp fun hnot => hmay ⟨hm, hnot⟩⟩

theorem step_contextEnds {c : StopCause} (h : s.step r (.contextEnds c) = some s') :
    s.context = none ∧ s' = { s with context := some c, jobs := s.jobs.map (·.endContext c) } := by
  simp only [step, Option.ite_none_right_eq_some] at h
  exact ⟨h.1, (Option.some.inj h.2).symm⟩

theorem step_of_moves (hj : s.jobs[i]? = some j) (hm : j.Moves r s.context m j')
    (hmay : m = .enter → s.mayEnter r i) : s.step r (.move i m) = some (s.put i j j') := by
  have hpasses : ¬ (m = .enter ∧ ¬ s.mayEnter r i) := fun h => h.2 (hmay h.1)
  simp only [step, hj, if_neg hpasses, hm.move?, Option.map_some]

theorem jobs_put (hj : s.jobs[i]? = some j) (j' : Job) (k : Nat) :
    (s.put i j j').jobs[k]? = if i = k then some j' else s.jobs[k]? := by
  have hi : i < s.jobs.length := (List.getElem?_eq_some_iff.mp hj).1
  simp [put, List.getElem?_set, hi]

theorem step_job (h : s.step r e = some s') (hk : s'.jobs[k]? = some j') :
    ∃ j, s.jobs[k]? = some j ∧ j.Follows r s.context k e j' := by
  cases e with
  | move i m =>
    obtain ⟨j, j₁, hj, hmoves, rfl, -⟩ := step_move h
    rw [jobs_put hj] at hk
    by_cases hi : i = k
    · subst hi
      rw [if_pos rfl] at hk
      obtain rfl := Option.some.inj hk
      exact ⟨j, hj, .own hmoves⟩
    · rw [if_neg hi] at hk
      exact ⟨j', hk, .other m hi⟩
  | contextEnds c =>
    obtain ⟨-, rfl⟩ := step_contextEnds h
    simp only [List.getElem?_map, Option.map_eq_some_iff] at hk
    obtain ⟨j, hj, rfl⟩ := hk
    exact ⟨j, hj, .contextEnds c⟩

theorem step_length (h : s.step r e = some s') : s'.jobs.length = s.jobs.length := by
  cases e with
  | move i m =>
    obtain ⟨j, j', -, -, rfl, -⟩ := step_move h
    simp [put]
  | contextEnds c =>
    obtain ⟨-, rfl⟩ := step_contextEnds h
    simp

theorem run_append (s : State) (es es' : List Event) : s.run r (es ++ es') = (s.run r es).bind (run r · es') := by
  induction es generalizing s with
  | nil => rfl
  | cons e es ih => simp [run, ih, Option.bind_assoc]

theorem run_induction {P : List Event → State → Prop} {s₀ : State} (hstart : P [] s₀)
    (hstep : ∀ es s e s', P es s → s.step r e = some s' → P (es ++ [e]) s') (h : s₀.run r es = some s) : P es s := by
  induction es using List.reverseRecOn generalizing s with
  | nil =>
    obtain rfl := Option.some.inj h
    exact hstart
  | append_singleton es e ih =>
    rw [run_append, Option.bind_eq_some_iff] at h
    obtain ⟨t, ht, hlast⟩ := h
    simp only [run, Option.bind_fun_some] at hlast
    exact hstep es t e s (ih ht) hlast

end State

end CircuitDesk.Batch
