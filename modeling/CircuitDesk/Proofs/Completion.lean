import CircuitDesk.Proofs.Outcomes
import Mathlib.Algebra.GroupWithZero.Nat
import Mathlib.Data.List.Forall2

/-!
A batch comes to its end: as long as a result is missing something can be done, and what can be done is bounded. The
results it ends with do not depend on the order in which the workers and the parses had their turns.
-/
namespace CircuitDesk.Batch

variable {r : Runner} {context : Option StopCause} {inputs : List Input} {input : Input} {i k : Nat} {j j' : Job}
  {m : Move} {s s' : State} {e : Event} {es : List Event} {rs : List Result}

/-- Whether an event is a turn of a worker or of a parse, and not the time or the caller. -/
def Event.isTurn : Event → Bool
  | .move _ m => m ≠ .deadlinePasses
  | .contextEnds _ => false

namespace Job

def workerTurns (j : Job) : Nat :=
  match j.worker with
  | .waiting => 4
  | .entered => 3
  | .busy => 2
  | .done _ => 1
  | .released _ => 0

def parseTurns (j : Job) : Nat :=
  match j.parse with
  | .idle | .spawned => 3
  | .running => 2
  | .returned => 1
  | .delivered => 0

def turns (j : Job) : Nat := j.workerTurns + j.parseTurns

theorem turns_moves (h : j.Moves r context m j') (hm : m ≠ .deadlinePasses)
    (hidle : j.worker = .entered → j.parse = .idle) : j'.turns < j.turns := by
  cases h with
  | spawn hw hsource => simp [turns, workerTurns, parseTurns, hw, hidle hw]
  | deadlinePasses => exact absurd rfl hm
  | _ => simp [turns, workerTurns, parseTurns, finish, *]

@[simp] theorem turns_endContext (j : Job) (c : StopCause) : (j.endContext c).turns = j.turns := by
  obtain ⟨stop, hstop⟩ := j.endContext_eq c
  rw [hstop]
  rfl

theorem exists_moves (r : Runner) (context : Option StopCause) (hidle : j.worker = .busy → j.parse ≠ .idle)
    (hw : j.worker ≠ .waiting) (hopen : j.released? = none) :
    ∃ m j', m ≠ .enter ∧ m ≠ .deadlinePasses ∧ j.Moves r context m j' := by
  cases hworker : j.worker with
  | waiting => exact absurd hworker hw
  | entered =>
    cases hsource : j.input.source with
    | error error => exact ⟨.begin, _, by simp, by simp, .fail hworker hsource⟩
    | ok text => exact ⟨.begin, _, by simp, by simp, .spawn hworker hsource⟩
  | busy =>
    cases hparse : j.parse with
    | idle => exact absurd hparse (hidle hworker)
    | spawned => exact ⟨.parseStarts, _, by simp, by simp, .parseStarts hparse⟩
    | running => exact ⟨.parseReturns, _, by simp, by simp, .parseReturns hparse⟩
    | returned => exact ⟨.deliver, _, by simp, by simp, .deliver hparse⟩
    | delivered => exact ⟨.takeOutcome, _, by simp, by simp, .takeOutcome hworker hparse⟩
  | done res => exact ⟨.release, _, by simp, by simp, .release hworker⟩
  | released res => simp [released?, hworker] at hopen

end Job

namespace State

def turns (s : State) : Nat := (s.jobs.map Job.turns).sum

theorem sum_map_set {α : Type} (f : α → Nat) {l : List α} {i : Nat} {a : α} (h : l[i]? = some a) (b : α) :
    ((l.set i b).map f).sum + f a = (l.map f).sum + f b := by
  induction l generalizing i with
  | nil => simp at h
  | cons x l ih =>
    cases i with
    | zero =>
      obtain rfl : x = a := by simpa using h
      simp only [List.set_cons_zero, List.map_cons, List.sum_cons]
      omega
    | succ i =>
      have htail := ih (i := i) (by simpa using h)
      simp only [List.set_cons_succ, List.map_cons, List.sum_cons]
      omega

theorem turns_step (h : Accounts r context inputs es s) (hs : s.step r e = some s') :
    s'.turns + [e].countP Event.isTurn ≤ s.turns := by
  cases e with
  | move i m =>
    obtain ⟨j, j', hj, hmoves, rfl, -⟩ := step_move hs
    obtain ⟨input, -, haccount⟩ := h.each i j hj
    have hsum := sum_map_set Job.turns hj j'
    have hput : (s.put i j j').turns = ((s.jobs.set i j').map Job.turns).sum := rfl
    -- a deadline may pass again and again, but it takes no turn
    by_cases hm : m = .deadlinePasses
    · subst hm
      have hsame : j'.turns = j.turns := by
        cases hmoves
        rfl
      have hcount : [Event.move i .deadlinePasses].countP Event.isTurn = 0 := rfl
      rw [hput, turns]
      omega
    · have hless := Job.turns_moves hmoves hm fun hw => haccount.idle (.inr hw)
      have hcount : [Event.move i m].countP Event.isTurn = 1 := by simp [Event.isTurn, hm]
      rw [hput, turns]
      omega
  | contextEnds c =>
    obtain ⟨-, rfl⟩ := step_contextEnds hs
    simp [turns, Event.isTurn, Function.comp_def]

theorem turns_initial (inputs : List Input) (context : Option StopCause) :
    (initial inputs context).turns = 7 * inputs.length := by
  have hnew : Job.turns ∘ Job.new = fun _ => 7 := rfl
  simp [turns, initial, hnew, List.map_const', Nat.mul_comm]

theorem turns_run (h : (initial inputs context).run r es = some s) :
    es.countP Event.isTurn + s.turns ≤ 7 * inputs.length := by
  have hboth : Accounts r context inputs es s ∧ es.countP Event.isTurn + s.turns ≤ 7 * inputs.length := by
    refine run_induction (P := fun es s => Accounts r context inputs es s ∧
      es.countP Event.isTurn + s.turns ≤ 7 * inputs.length) ?_ ?_ h
    · exact ⟨accounts_of_run rfl, by simp [turns_initial]⟩
    · rintro es s e s' ⟨haccounts, hle⟩ hs
      have hless := turns_step haccounts hs
      rw [List.countP_append]
      exact ⟨haccounts.step hs, by omega⟩
  exact hboth.2

theorem mapM_eq_some {α β : Type} {f : α → Option β} {l : List α} {bs : List β} (h : l.mapM f = some bs) :
    l.map f = bs.map some := by
  induction l generalizing bs with
  | nil =>
    obtain rfl : [] = bs := by simpa using h
    rfl
  | cons a l ih =>
    rw [List.mapM_cons] at h
    obtain ⟨b, hb, h⟩ := Option.bind_eq_some_iff.mp h
    obtain ⟨bs', hbs, h⟩ := Option.bind_eq_some_iff.mp h
    obtain rfl := Option.some.inj h
    rw [List.map_cons, List.map_cons, hb, ih hbs]

theorem mapM_eq_none {α β : Type} {f : α → Option β} {l : List α} (h : l.mapM f = none) : ∃ a ∈ l, f a = none := by
  induction l with
  | nil => simp at h
  | cons a l ih =>
    rw [List.mapM_cons] at h
    cases ha : f a with
    | none => exact ⟨a, List.mem_cons_self, ha⟩
    | some b =>
      have hl : l.mapM f = none := by
        cases hl : l.mapM f with
        | none => rfl
        | some bs => simp [ha, hl] at h
      obtain ⟨a', hmem, ha'⟩ := ih hl
      exact ⟨a', List.mem_cons_of_mem _ hmem, ha'⟩

theorem exists_first {α : Type} (p : α → Bool) {l : List α} (h : ∃ a ∈ l, p a) :
    ∃ i a, l[i]? = some a ∧ p a ∧ ∀ b ∈ l.take i, p b = false := by
  have hi : l.findIdx p < l.length := List.findIdx_lt_length_of_exists h
  refine ⟨l.findIdx p, _, List.getElem?_eq_getElem hi, List.findIdx_getElem, fun b hb => ?_⟩
  obtain ⟨k, hk, rfl⟩ := List.mem_take_iff_getElem.mp hb
  exact List.not_of_lt_findIdx (by omega)

theorem exists_turn (h : Accounts r context inputs es s) (hworkers : 1 ≤ r.workers) (hopen : s.results? = none) :
    ∃ e s', e.isTurn ∧ s.step r e = some s' := by
  by_cases hunderway : ∃ j ∈ s.jobs, j.worker ≠ .waiting ∧ j.released? = none
  · obtain ⟨j, hmem, hw, hnone⟩ := hunderway
    obtain ⟨i, hj⟩ := List.mem_iff_getElem?.mp hmem
    obtain ⟨input, -, haccount⟩ := h.each i j hj
    obtain ⟨m, j', henter, hdeadline, hmoves⟩ := Job.exists_moves r s.context haccount.busy hw hnone
    exact ⟨.move i m, _, by simp [Event.isTurn, hdeadline], step_of_moves hj hmoves fun hm => absurd hm henter⟩
  · -- All slots are free then, and the first of those that wait may enter.
    have hidle : ∀ j ∈ s.jobs, j.worker ≠ .waiting → j.released? ≠ none := fun j hmem hw hnone =>
      hunderway ⟨j, hmem, hw, hnone⟩
    have hwaiting : ∃ j ∈ s.jobs, decide (j.worker = .waiting) := by
      obtain ⟨j, hmem, hnone⟩ := mapM_eq_none hopen
      exact ⟨j, hmem, decide_eq_true (Decidable.not_not.mp fun hw => hidle j hmem hw hnone)⟩
    have hfree : s.slotsTaken = 0 := by
      refine List.countP_eq_zero.mpr fun j hmem hslot => ?_
      by_cases hw : j.worker = .waiting
      · simp [Job.holdsSlot, hw] at hslot
      · have hreleased := hidle j hmem hw
        cases hworker : j.worker <;> simp [Job.released?, Job.holdsSlot, hworker] at hreleased hslot
    obtain ⟨i, j, hj, hw, hbefore⟩ := exists_first _ hwaiting
    have hmay : s.mayEnter r i := by
      have hentered : s.enteredBefore i := by
        refine List.all_eq_true.mpr fun j hmem => ?_
        simpa using hbefore j hmem
      simp only [mayEnter, hentered, hfree, Bool.true_and, decide_eq_true_eq]
      exact hworkers
    exact ⟨.move i .enter, _, rfl, step_of_moves hj (.enter (of_decide_eq_true hw)) fun _ => hmay⟩

end State

/-- What the results of a finished batch are, for the run `es` that led to them. -/
structure Answers (r : Runner) (context : Option StopCause) (inputs : List Input) (es : List Event)
    (rs : List Result) : Prop where
  length : rs.length = inputs.length
  each : ∀ i input res, inputs[i]? = some input → rs[i]? = some res → Answer r context i es input res
  undisturbed : r.timeout.nanoseconds ≤ 0 → context = none → (∀ c, .contextEnds c ∉ es) →
    List.Forall₂ (fun input res => res.name = input.name ∧ input.ReadsAs r.strict res.outcome) inputs rs

theorem Answer.undisturbed {res : Result} (h : Answer r context i es input res) (ht : r.timeout.nanoseconds ≤ 0)
    (hcontext : context = none) (hends : ∀ c, .contextEnds c ∉ es) : input.ReadsAs r.strict res.outcome := by
  obtain hreads | ⟨c, -, -, es₁, es₂, rfl, hended⟩ := h.outcome
  · exact hreads
  · rcases hended with ⟨-, htimeout, -⟩ | hmem | hctx
    · exact absurd htimeout (Int64.not_lt.mpr ht)
    · exact absurd (List.mem_append_left _ hmem) (hends c)
    · simp [hcontext] at hctx

theorem Accounts.answers (h : Accounts r context inputs es s) (hrs : s.results? = some rs) :
    Answers r context inputs es rs := by
  have hmap := State.mapM_eq_some hrs
  have hlength : rs.length = inputs.length := by
    have hlengths := congrArg List.length hmap
    rw [List.length_map, List.length_map, h.length] at hlengths
    exact hlengths.symm
  have heach : ∀ i input res, inputs[i]? = some input → rs[i]? = some res → Answer r context i es input res := by
    intro i input res hinput hres
    have hget := congrArg (·[i]?) hmap
    simp only [List.getElem?_map, hres, Option.map_some, Option.map_eq_some_iff] at hget
    obtain ⟨j, hj, hreleased⟩ := hget
    obtain ⟨input', hinput', haccount⟩ := h.each i j hj
    obtain rfl : input' = input := Option.some.inj (hinput'.symm.trans hinput)
    refine haccount.answer res ?_
    cases hworker : j.worker <;> simp_all [Job.released?, Job.result?]
  -- without a limit and with the context on there is no cause to give up
  refine ⟨hlength, heach, fun ht hcontext hends => List.forall₂_iff_get.mpr ⟨hlength.symm, fun i hi hi' => ?_⟩⟩
  have hanswer := heach i _ _ (List.getElem?_eq_getElem hi) (List.getElem?_eq_getElem hi')
  exact ⟨hanswer.name, hanswer.undisturbed ht hcontext hends⟩

/-- A batch behind the run `es`: what it answers once it is through, and that it gets there. -/
structure Completes (r : Runner) (context : Option StopCause) (inputs : List Input) (es : List Event)
    (s : State) : Prop where
  answers : ∀ rs, s.results? = some rs → Answers r context inputs es rs
  progress : 1 ≤ r.workers → s.results? = none → ∃ e s', e.isTurn ∧ s.step r e = some s'
  bounded : es.countP Event.isTurn ≤ 7 * inputs.length

theorem completes_of_run (h : (State.initial inputs context).run r es = some s) :
    Completes r context inputs es s := by
  have haccounts := accounts_of_run h
  have hturns := State.turns_run h
  exact ⟨fun _ => haccounts.answers, State.exists_turn haccounts, by omega⟩

/-- The first of two inputs is given up while it is parsed, and its parse returns when the second is on. -/
theorem completes_of_givenUp :
    let r := Runner.standard.withWorkers 1
    let inputs : List Input := [.ofText "a" "Inputs:", .ofText "b" "Inputs: 0:Qbit\nOutputs: 0:Qbit"]
    let es : List Event := [.move 0 .enter, .move 0 .begin, .move 0 .parseStarts, .move 0 .deadlinePasses,
      .move 0 .giveUp, .move 0 .release, .move 1 .enter, .move 1 .begin, .move 1 .parseStarts, .move 0 .parseReturns,
      .move 1 .parseReturns, .move 1 .deliver, .move 1 .takeOutcome, .move 1 .release]
    ∃ s, (State.initial inputs none).run r es = some s ∧
      (s.results?.map fun rs => rs.map Result.status) = some [Bytes.ofString "timeout", Bytes.ofString "ok"] ∧
      Completes r none inputs es s := by
  intro r inputs es
  have hrun : ((State.initial inputs none).run r es).bind
      (fun s => s.results?.map fun rs => rs.map Result.status) =
        some [Bytes.ofString "timeout", Bytes.ofString "ok"] := by decide +kernel
  obtain ⟨s, hs, hresults⟩ := Option.bind_eq_some_iff.mp hrun
  exact ⟨s, hs, hresults, completes_of_run hs⟩

end CircuitDesk.Batch
