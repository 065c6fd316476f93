import CircuitDesk.Proofs.Moves

namespace CircuitDesk.Batch

variable {r : Runner} {context : Option StopCause} {inputs : List Input} {input : Input} {i k : Nat} {j j' : Job}
  {m : Move} {s s' : State} {e : Event} {es : List Event} {c : StopCause} {res : Result}

/-- `input.ReadsAs strict o` says that `o` is what reading the input by itself gives. -/
inductive Input.ReadsAs (strict : Bool) : Input → Outcome → Prop
  | unreadable {name : Bytes} {e : Files.Error} : ReadsAs strict ⟨name, .error e⟩ (.unreadable e)
  | parsed {name text : Bytes} {p : CheckedProgram} :
      Source.parse ⟨name, strict⟩ text = .ok p → ReadsAs strict ⟨name, .ok text⟩ (.parsed p)
  | refused {name text : Bytes} {e : Fault} :
      Source.parse ⟨name, strict⟩ text = .error e → ReadsAs strict ⟨name, .ok text⟩ (.refused e)

inductive StopCause.Reports (limit : Duration) : StopCause → Outcome → Prop
  | deadline : Reports limit .deadline (.timedOut limit)
  | cancelled : Reports limit .cancelled .cancelled

/-- A reason to give up the input `i` that has come by the end of `es`: its own time is up, or the caller's context
has ended. -/
def Ended (r : Runner) (context : Option StopCause) (i : Nat) (es : List Event) (c : StopCause) : Prop :=
  (c = .deadline ∧ 0 < r.timeout.nanoseconds ∧ .move i .deadlinePasses ∈ es) ∨ .contextEnds c ∈ es ∨ context = some c

/-- The outcome of the input `i` was never taken, since its worker gave up before. -/
def GivenUp (r : Runner) (context : Option StopCause) (i : Nat) (es : List Event) (c : StopCause) : Prop :=
  .move i .takeOutcome ∉ es ∧ ∃ es₁ es₂, es = es₁ ++ .move i .giveUp :: es₂ ∧ Ended r context i es₁ c

structure Answer (r : Runner) (context : Option StopCause) (i : Nat) (es : List Event) (input : Input)
    (res : Result) : Prop where
  name : res.name = input.name
  single : res.program?.isSome ↔ res.error? = none
  outcome : input.ReadsAs r.strict res.outcome ∨ ∃ c, c.Reports r.timeout res.outcome ∧ GivenUp r context i es c

theorem readsAs_outcome (r : Runner) (input : Input) : input.ReadsAs r.strict (r.outcome input) := by
  obtain ⟨name, source⟩ := input
  unfold Runner.outcome
  cases source with
  | error e => exact .unreadable
  | ok text =>
    dsimp only
    cases hparse : Source.parse ⟨name, r.strict⟩ text with
    | ok p => exact .parsed hparse
    | error e => exact .refused hparse

theorem reports_stopped (r : Runner) (c : StopCause) : c.Reports r.timeout (r.stopped c) := by
  cases c
  · exact .deadline
  · exact .cancelled

theorem Result.program?_isSome_iff (res : Result) : res.program?.isSome ↔ res.error? = none := by
  unfold program? error?
  cases res.outcome <;> simp

theorem Ended.later (h : Ended r context i es c) (e : Event) : Ended r context i (es ++ [e]) c := by
  rcases h with ⟨hc, ht, hmem⟩ | hmem | hctx
  · exact .inl ⟨hc, ht, List.mem_append_left _ hmem⟩
  · exact .inr (.inl (List.mem_append_left _ hmem))
  · exact .inr (.inr hctx)

theorem GivenUp.later (h : GivenUp r context i es c) (he : e ≠ .move i .takeOutcome) :
    GivenUp r context i (es ++ [e]) c := by
  obtain ⟨huntaken, es₁, es₂, rfl, hended⟩ := h
  refine ⟨?_, es₁, es₂ ++ [e], by simp, hended⟩
  intro hmem
  rcases List.mem_append.mp hmem with hmem | hmem
  · exact huntaken hmem
  · exact he (List.mem_singleton.mp hmem).symm

theorem Answer.later (h : Answer r context i es input res) (he : e ≠ .move i .takeOutcome) :
    Answer r context i (es ++ [e]) input res :=
  ⟨h.name, h.single, h.outcome.imp_right fun ⟨c, hc, hgiven⟩ => ⟨c, hc, hgiven.later he⟩⟩

/-- What holds of the job with the number `k` behind the run `es`. -/
structure Account (r : Runner) (context : Option StopCause) (k : Nat) (es : List Event) (input : Input)
    (j : Job) : Prop where
  own : j.input = input
  stop : ∀ c, j.stop = some c → Ended r context k es c
  idle : j.worker = .waiting ∨ j.worker = .entered → j.parse = .idle
  busy : j.worker = .busy → j.parse ≠ .idle
  unanswered : j.result? = none → .move k .takeOutcome ∉ es ∧ .move k .giveUp ∉ es
  answer : ∀ res, j.result? = some res → Answer r context k es input res

namespace Account

theorem new (input : Input) : Account r context k [] input (.new input) where
  own := rfl
  stop _ h := nomatch h
  idle _ := rfl
  busy h := nomatch h
  unanswered _ := ⟨List.not_mem_nil, List.not_mem_nil⟩
  answer _ h := nomatch h

theorem later (h : Account r context k es input j) (htake : e ≠ .move k .takeOutcome) (hgive : e ≠ .move k .giveUp) :
    Account r context k (es ++ [e]) input j where
  own := h.own
  stop c hc := (h.stop c hc).later e
  idle := h.idle
  busy := h.busy
  unanswered hnone := by
    have huntaken := h.unanswered hnone
    simp [huntaken, htake.symm, hgive.symm]
  answer res hres := (h.answer res hres).later htake

theorem withParse (h : Account r context k es input j) {p : ParseState} (hp : p ≠ .idle) (hj : j.parse ≠ .idle) :
    Account r context k es input { j with parse := p } :=
  ⟨h.own, h.stop, fun hw => absurd (h.idle hw) hj, fun _ => hp, h.unanswered, h.answer⟩

theorem withStop (h : Account r context k es input j) {stop : Option StopCause}
    (hstop : ∀ c, stop = some c → Ended r context k es c) : Account r context k es input { j with stop := stop } :=
  ⟨h.own, hstop, h.idle, h.busy, h.unanswered, h.answer⟩

theorem stop_or (h : Account r context k es input j) (hended : Ended r context k es c) :
    ∀ c', j.stop.or (some c) = some c' → Ended r context k es c' := by
  intro c' hc'
  cases hstop : j.stop with
  | none =>
    obtain rfl : c = c' := by simpa [hstop] using hc'
    exact hended
  | some c₀ =>
    obtain rfl : c₀ = c' := by simpa [hstop] using hc'
    exact h.stop c₀ hstop

theorem finish (h : Account r context k es input j) (e : Event) {o : Outcome}
    (ho : input.ReadsAs r.strict o ∨ ∃ c, c.Reports r.timeout o ∧ GivenUp r context k (es ++ [e]) c) :
    Account r context k (es ++ [e]) input (j.finish o) where
  own := h.own
  stop c hc := (h.stop c hc).later e
  idle hw := by simp [Job.finish] at hw
  busy hw := by simp [Job.finish] at hw
  unanswered hnone := by simp [Job.finish, Job.result?] at hnone
  answer res hres := by
    obtain rfl : ⟨j.input.name, o⟩ = res := by simpa [Job.finish, Job.result?] using hres
    exact ⟨congrArg Input.name h.own, Result.program?_isSome_iff _, ho⟩

theorem moves (h : Account r context k es input j) {now : Option StopCause}
    (hnow : ∀ c, now = some c → Ended r context k es c) (hm : j.Moves r now m j') :
    Account r context k (es ++ [.move k m]) input j' := by
  cases hm with
  | enter hw =>
    have hlater := h.later (e := .move k .enter) (by simp) (by simp)
    have hnone : j.result? = none := by simp [Job.result?, hw]
    exact ⟨hlater.own, hlater.stop, fun _ => h.idle (.inl hw), by simp, fun _ => hlater.unanswered hnone,
      fun _ hres => nomatch hres⟩
  | fail hw hsource =>
    refine h.finish _ (.inl ?_)
    have hreads := readsAs_outcome r j.input
    rwa [Runner.outcome, hsource, h.own] at hreads
  | spawn hw hsource =>
    have hlater := h.later (e := .move k .begin) (by simp) (by simp)
    have hnone : j.result? = none := by simp [Job.result?, hw]
    exact ⟨hlater.own, fun c hc => (hnow c hc).later _, by simp, by simp, fun _ => hlater.unanswered hnone,
      fun _ hres => nomatch hres⟩
  | parseStarts hp => exact (h.later (by simp) (by simp)).withParse (by simp) (by simp [hp])
  | parseReturns hp => exact (h.later (by simp) (by simp)).withParse (by simp) (by simp [hp])
  | deliver hp => exact (h.later (by simp) (by simp)).withParse (by simp) (by simp [hp])
  | deadlinePasses hw ht =>
    have hlater := h.later (e := .move k .deadlinePasses) (by simp) (by simp)
    exact hlater.withStop (hlater.stop_or (.inl ⟨rfl, of_decide_eq_true ht, by simp⟩))
  | takeOutcome hw hp =>
    rw [h.own]
    exact h.finish _ (.inl (readsAs_outcome r input))
  | @giveUp c hw hc =>
    -- a worker that still waits has no result, so its outcome was not taken before either
    have hnone : j.result? = none := by simp [Job.result?, hw]
    have huntaken := (h.unanswered hnone).1
    exact h.finish _ (.inr ⟨c, reports_stopped r c, by simpa using huntaken, es, [], rfl, h.stop c hc⟩)
  | release hw =>
    have hlater := h.later (e := .move k .release) (by simp) (by simp)
    refine ⟨hlater.own, hlater.stop, by simp, by simp, (nomatch ·), fun res' hres => ?_⟩
    exact hlater.answer res' (by simpa [Job.result?, hw] using hres)

theorem follows (h : Account r context k es input j) {now : Option StopCause}
    (hnow : ∀ c, now = some c → Ended r context k es c) (hf : j.Follows r now k e j') :
    Account r context k (es ++ [e]) input j' := by
  cases hf with
  | own hm => exact h.moves hnow hm
  | other m hi => exact h.later (by simp [hi]) (by simp [hi])
  | contextEnds c =>
    have hlater := h.later (e := .contextEnds c) (by simp) (by simp)
    unfold Job.endContext
    split
    · exact hlater.withStop (hlater.stop_or (.inr (.inl (by simp))))
    · exact hlater

end Account

structure Accounts (r : Runner) (context : Option StopCause) (inputs : List Input) (es : List Event)
    (s : State) : Prop where
  length : s.jobs.length = inputs.length
  ended : ∀ c, s.context = some c → .contextEnds c ∈ es ∨ context = some c
  each : ∀ k j, s.jobs[k]? = some j → ∃ input, inputs[k]? = some input ∧ Account r context k es input j

theorem Accounts.step (h : Accounts r context inputs es s) (hs : s.step r e = some s') :
    Accounts r context inputs (es ++ [e]) s' where
  length := (State.step_length hs).trans h.length
  ended c hc := by
    cases e with
    | move i m =>
      obtain ⟨j, j', -, -, rfl, -⟩ := State.step_move hs
      exact (h.ended c hc).imp_left (List.mem_append_left _)
    | contextEnds c₀ =>
      obtain ⟨-, rfl⟩ := State.step_contextEnds hs
      obtain rfl := Option.some.inj hc
      exact .inl (by simp)
  each k j' hj' := by
    obtain ⟨j, hj, hf⟩ := State.step_job hs hj'
    obtain ⟨input, hinput, haccount⟩ := h.each k j hj
    exact ⟨input, hinput, haccount.follows (fun c hc => .inr (h.ended c hc)) hf⟩

theorem accounts_of_run (h : (State.initial inputs context).run r es = some s) :
    Accounts r context inputs es s := by
  refine State.run_induction (P := fun es s => Accounts r context inputs es s) ?_ (fun _ _ _ _ => Accounts.step) h
  refine ⟨by simp [State.initial], fun c hc => .inr hc, fun k j hj => ?_⟩
  simp only [State.initial, List.getElem?_map, Option.map_eq_some_iff] at hj
  obtain ⟨input, hinput, rfl⟩ := hj
  exact ⟨input, hinput, .new input⟩

end CircuitDesk.Batch
