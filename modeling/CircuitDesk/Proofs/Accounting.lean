import CircuitDesk.Proofs.Completion
import CircuitDesk.Proofs.Values
import CircuitDesk.Proofs.Wires

namespace CircuitDesk

/-- `names` are the names of the sites, once each and in strictly ascending order. -/
structure Lists (sites : List CallSite) (names : List Bytes) : Prop where
  ascending : names.Pairwise (· < ·)
  exact : ∀ name, name ∈ names ↔ ∃ site ∈ sites, site.name = name

theorem Bytes.sorted_perm (names : List Bytes) : (Bytes.sorted names).Perm names := List.mergeSort_perm _ _

theorem Bytes.pairwise_sorted {names : List Bytes} (h : names.Nodup) : (Bytes.sorted names).Pairwise (· < ·) := by
  have hsorted : (Bytes.sorted names).Pairwise (· ≤ ·) :=
    ascending_mergeSort (fun _ _ _ => List.le_trans) List.le_total names
  have hdistinct : (Bytes.sorted names).Pairwise (· ≠ ·) := (Bytes.sorted_perm names).nodup_iff.mpr h
  refine (hsorted.and hdistinct).imp fun {a b} hab => ?_
  exact List.not_le.mp fun hba => hab.2 (List.le_antisymm hab.1 hba)

theorem Report.lists_unresolvedNames (r : Report) : Lists r.unresolved r.unresolvedNames where
  ascending := Bytes.pairwise_sorted (nodup_firstOccurrences _)
  exact name := by
    rw [Report.unresolvedNames, (Bytes.sorted_perm _).mem_iff, Gate.mem_firstOccurrences, List.mem_map]

theorem Lists.eq_nil_iff {sites : List CallSite} {names : List Bytes} (h : Lists sites names) :
    names = [] ↔ sites = [] := by
  simp only [List.eq_nil_iff_forall_not_mem, h.exact]
  grind

theorem Source.unresolved_of_checkedProgram {t : Tree} {p : CheckedProgram}
    (h : Source.checkedProgram true t = .ok p) : p.report.unresolved = [] := by
  obtain ⟨program, hprogram, h⟩ := Tree.bind_eq_ok.mp h
  obtain ⟨report, hreport, h⟩ := Tree.bind_eq_ok.mp h
  cases hsites : report.unresolved with
  | nil =>
    rw [hsites] at h
    obtain rfl := Except.ok.inj h
    exact hsites
  | cons site more =>
    rw [hsites] at h
    cases h

theorem Source.unresolved_of_parse {file text : Bytes} {p : CheckedProgram}
    (h : Source.parse ⟨file, true⟩ text = .ok p) : p.report.unresolved = [] := by
  obtain ⟨t, ht, h⟩ := Tree.bind_eq_ok.mp h
  exact Source.unresolved_of_checkedProgram (Tree.mapError_eq_ok.mp h)

namespace Batch

variable {r : Runner} {context : Option StopCause} {inputs : List Input} {input : Input} {i : Nat} {j j' : Job}
  {m : Move} {s s' : State} {e : Event} {es : List Event} {res : Result} {rs : List Result}

namespace Result

def callsInVain (res : Result) : Bool := res.program?.any fun p => p.report.unresolved ≠ []

/-- `Lines res lines` says that the log says `lines` of `res`: that it was parsed, or that it failed and with which
status, and behind a parsed input which of its calls are in vain, if any is. -/
inductive Lines (res : Result) : List LogLine → Prop
  | failed {error : Bytes} : res.status ≠ "ok" → res.error? = some error →
      Lines res [.failed res.name res.status error]
  | parsed {p : CheckedProgram} : res.status = "ok" → res.callsInVain = false → res.program? = some p →
      Lines res [.parsed res.name p.program.main.gates.length p.program.subroutines.length]
  | calling {p : CheckedProgram} {names : List Bytes} : res.status = "ok" → res.callsInVain = true →
      res.program? = some p → Lists p.report.unresolved names →
      Lines res [.parsed res.name p.program.main.gates.length p.program.subroutines.length, .unresolved res.name names]

theorem status_eq_ok_iff (res : Result) : res.status = "ok" ↔ res.program?.isSome := by
  obtain ⟨name, outcome⟩ := res
  cases outcome with
  | refused e => cases e <;> simp [status, program?, Fault.kind?] <;> decide
  | parsed p => simp [status, program?]
  | _ => simp [status, program?]; decide

theorem status_eq_timeout_iff (res : Result) : res.status = "timeout" ↔ res.isTimeout := by
  obtain ⟨name, outcome⟩ := res
  cases outcome with
  | refused e => cases e <;> simp [status, isTimeout, Fault.kind?] <;> decide
  | timedOut d => simp [status, isTimeout]
  | _ => simp [status, isTimeout]; decide

theorem lines_logLines (res : Result) : res.Lines res.logLines := by
  cases hp : res.program? with
  | none =>
    have hfailed : ¬ res.program?.isSome := by simp [hp]
    obtain ⟨error, herror⟩ := Option.ne_none_iff_exists'.mp ((not_congr res.program?_isSome_iff).mp hfailed)
    simp only [logLines, hp, herror, Option.getD_some]
    exact .failed ((not_congr res.status_eq_ok_iff).mpr hfailed) herror
  | some p =>
    have hok : res.status = "ok" := res.status_eq_ok_iff.mpr (by simp [hp])
    have hnames : res.unresolvedNames = p.report.unresolvedNames := by simp [unresolvedNames, hp]
    have hlists := p.report.lists_unresolvedNames
    simp only [logLines, hp, hnames, hlists.eq_nil_iff]
    split
    · next hnone => exact .parsed hok (by simp [callsInVain, hp, hnone]) hp
    · next hsome => exact .calling hok (by simp [callsInVain, hp, hsome]) hp hlists

end Result

theorem Answer.callsInVain_of_strict (h : Answer r context i es input res) (hstrict : r.strict) :
    res.callsInVain = false := by
  obtain ⟨name, outcome⟩ := res
  cases outcome with
  | parsed p =>
    obtain hparsed | ⟨c, hstopped, -⟩ := h.outcome
    · cases hparsed with
      | parsed hparse =>
        rw [hstrict] at hparse
        simp [Result.callsInVain, Result.program?, Source.unresolved_of_parse hparse]
    · cases hstopped
  | _ => rfl

def Job.lines (j : Job) : List LogLine := (j.result?.map Result.logLines).getD []

namespace Job

theorem lines_of_result?_eq (h : j'.result? = j.result?) : j'.lines = j.lines ++ j.newLines j' := by
  unfold lines newLines
  rw [h]
  cases j.result? <;> simp

theorem lines_of_result?_none (h : j.result? = none) : j'.lines = j.lines ++ j.newLines j' := by
  unfold lines newLines
  rw [h]
  cases j'.result? <;> simp

theorem lines_moves (h : j.Moves r context m j') : j'.lines = j.lines ++ j.newLines j' := by
  cases h with
  | release hw => exact lines_of_result?_eq (by simp [result?, hw])
  | fail hw | takeOutcome hw | giveUp hw => exact lines_of_result?_none (by simp [result?, hw])
  | enter hw | spawn hw => exact lines_of_result?_eq (by simp [result?, hw])
  | parseStarts | parseReturns | deliver | deadlinePasses => exact lines_of_result?_eq rfl

theorem lines_of_released? (h : j.released? = some res) : j.lines = res.logLines := by
  cases hw : j.worker with
  | released =>
    obtain rfl : _ = res := by simpa [released?, hw] using h
    simp [lines, result?, hw]
  | _ => simp [released?, hw] at h

@[simp] theorem lines_endContext (j : Job) (c : StopCause) : (j.endContext c).lines = j.lines := by
  obtain ⟨stop, hstop⟩ := j.endContext_eq c
  rw [hstop]
  rfl

end Job

namespace State

theorem flatMap_set_perm {α β : Type} {f : α → List β} {l : List α} {i : Nat} {a b : α} {new : List β}
    (hi : l[i]? = some a) (hb : f b = f a ++ new) : ((l.set i b).flatMap f).Perm (l.flatMap f ++ new) := by
  induction l generalizing i with
  | nil => simp at hi
  | cons x l ih =>
    cases i with
    | zero =>
      obtain rfl : x = a := by simpa using hi
      simp only [List.set_cons_zero, List.flatMap_cons, hb, List.append_assoc]
      exact List.perm_append_comm.append_left _
    | succ i =>
      simp only [List.set_cons_succ, List.flatMap_cons, List.append_assoc]
      exact (ih (by simpa using hi)).append_left _

theorem log_step (h : s.log.Perm (s.jobs.flatMap Job.lines)) (hs : s.step r e = some s') :
    s'.log.Perm (s'.jobs.flatMap Job.lines) := by
  cases e with
  | move i m =>
    obtain ⟨j, j', hj, hmoves, rfl, -⟩ := step_move hs
    -- new lines go to the end of the log, but into the middle of the lines by job
    exact (h.append_right _).trans (flatMap_set_perm hj (Job.lines_moves hmoves)).symm
  | contextEnds c =>
    obtain ⟨-, rfl⟩ := step_contextEnds hs
    simpa [List.flatMap_map] using h

theorem log_run (h : (initial inputs context).run r es = some s) : s.log.Perm (s.jobs.flatMap Job.lines) := by
  refine run_induction (P := fun _ s => s.log.Perm (s.jobs.flatMap Job.lines)) ?_ (fun _ _ _ _ => log_step) h
  have hnew : Job.lines ∘ Job.new = fun _ => [] := rfl
  simp [initial, List.flatMap_map, Job.lines, Job.new, Job.result?]

theorem flatMap_lines {jobs : List Job} (h : jobs.map Job.released? = rs.map some) :
    jobs.flatMap Job.lines = rs.flatMap Result.logLines := by
  induction jobs generalizing rs with
  | nil =>
    obtain rfl : rs = [] := by simpa using h
    rfl
  | cons j jobs ih =>
    cases rs with
    | nil => simp at h
    | cons res rs =>
      obtain ⟨hres, h⟩ := List.cons.inj h
      rw [List.flatMap_cons, List.flatMap_cons, ih h, Job.lines_of_released? hres]

theorem log_of_results? (h : (initial inputs context).run r es = some s) (hrs : s.results? = some rs) :
    s.log.Perm (rs.flatMap Result.logLines) := by
  rw [← flatMap_lines (mapM_eq_some hrs)]
  exact log_run h

end State

/-- The books of a finished batch: its results `rs`, their summary and the log agree. -/
structure Balanced (r : Runner) (inputs : List Input) (log : List LogLine) (rs : List Result) : Prop where
  names : rs.map Result.name = inputs.map Input.name
  total : (summarize rs).total = inputs.length
  parts : (summarize rs).total = (summarize rs).ok + (summarize rs).failed
  ok : (summarize rs).ok = rs.countP fun res => decide (res.status = ("ok" : Bytes))
  timedOut : (summarize rs).timedOut = rs.countP fun res => decide (res.status = ("timeout" : Bytes))
  timedOut_le : (summarize rs).timedOut ≤ (summarize rs).failed
  unresolved : (summarize rs).unresolved = rs.countP Result.callsInVain
  unresolved_le : (summarize rs).unresolved ≤ (summarize rs).ok
  strict : r.strict → (summarize rs).unresolved = 0
  logged : ∃ lines, List.Forall₂ Result.Lines rs lines ∧ log.Perm lines.flatten

theorem summarize_total (rs : List Result) : (summarize rs).total = (summarize rs).ok + (summarize rs).failed := by
  have hnone : (fun res : Result => res.program?.isNone) = fun res => decide (¬ res.program?.isSome) := by
    funext res
    cases res.program? <;> rfl
  simp only [summarize, hnone]
  exact List.length_eq_countP_add_countP _

theorem Result.isNone_of_isTimeout (h : res.isTimeout) : res.program?.isNone := by
  obtain ⟨name, outcome⟩ := res
  cases outcome with
  | timedOut d => rfl
  | _ => cases h

theorem Result.isSome_of_callsInVain (h : res.callsInVain) : res.program?.isSome := by
  unfold callsInVain at h
  cases hp : res.program? with
  | none => simp [hp] at h
  | some p => rfl

theorem summarize_unresolved (rs : List Result) : (summarize rs).unresolved = rs.countP Result.callsInVain := by
  refine congrArg (rs.countP ·) (funext fun res => ?_)
  unfold Result.callsInVain
  cases res.program? with
  | none => rfl
  | some p => cases hsites : p.report.unresolved <;> simp [hsites]

theorem Answers.names (h : Answers r context inputs es rs) : rs.map Result.name = inputs.map Input.name := by
  refine List.ext_getElem (by simp [h.length]) fun i hi hi' => ?_
  rw [List.length_map] at hi hi'
  rw [List.getElem_map, List.getElem_map]
  exact (h.each i _ _ (List.getElem?_eq_getElem hi') (List.getElem?_eq_getElem hi)).name

theorem Answers.callsInVain_of_strict (h : Answers r context inputs es rs) (hstrict : r.strict) :
    ∀ res ∈ rs, res.callsInVain = false := by
  intro res hmem
  obtain ⟨i, hi, rfl⟩ := List.mem_iff_getElem.mp hmem
  have hinput : i < inputs.length := h.length ▸ hi
  exact (h.each i _ _ (List.getElem?_eq_getElem hinput) (List.getElem?_eq_getElem hi)).callsInVain_of_strict hstrict

theorem balanced_of_run (h : (State.initial inputs context).run r es = some s) (hrs : s.results? = some rs) :
    Balanced r inputs s.log rs where
  names := ((accounts_of_run h).answers hrs).names
  total := ((accounts_of_run h).answers hrs).length
  parts := summarize_total rs
  ok := List.countP_congr fun res _ => by simp [res.status_eq_ok_iff]
  timedOut := List.countP_congr fun res _ => by simp [res.status_eq_timeout_iff]
  timedOut_le := List.countP_mono_left fun _ _ => Result.isNone_of_isTimeout
  unresolved := summarize_unresolved rs
  unresolved_le := by
    rw [summarize_unresolved]
    exact List.countP_mono_left fun _ _ => Result.isSome_of_callsInVain
  strict hstrict := by
    have hnone := ((accounts_of_run h).answers hrs).callsInVain_of_strict hstrict
    rw [summarize_unresolved]
    exact List.countP_eq_zero.mpr fun res hres => by simp [hnone res hres]
  logged := by
    refine ⟨rs.map Result.logLines, ?_, ?_⟩
    · exact List.forall₂_map_right_iff.mpr (List.forall₂_same.mpr fun res _ => res.lines_logLines)
    · exact State.log_of_results? h hrs

theorem balanced_of_missing :
    let r := Runner.standard
    let inputs : List Input := [.ofText "c" "Inputs:", .ofPath (.empty []) "a",
      .ofText "b" "Inputs: 0:Qbit\nSubroutine[\"g\", shape \"()\"] (0) -> (0)\nOutputs: 0:Qbit"]
    let es : List Event := [.move 0 .enter, .move 0 .begin, .move 1 .enter, .move 0 .parseStarts, .move 2 .enter,
      .move 1 .begin, .move 2 .begin, .move 2 .parseStarts, .move 0 .deadlinePasses, .move 2 .parseReturns,
      .move 2 .deliver, .move 0 .giveUp, .move 1 .release, .move 2 .takeOutcome, .move 2 .release, .move 0 .release]
    ∃ s rs, ((State.initial inputs none).run r es = some s ∧ s.results? = some rs) ∧
      summarize rs = ⟨3, 1, 2, 1, 1⟩ ∧ Balanced r inputs s.log rs := by
  intro r inputs es
  have hrun : ((State.initial inputs none).run r es).bind (fun s => s.results?.map summarize) =
      some ⟨3, 1, 2, 1, 1⟩ := by decide +kernel
  obtain ⟨s, hs, hsummary⟩ := Option.bind_eq_some_iff.mp hrun
  obtain ⟨rs, hrs, hsummary⟩ := Option.map_eq_some_iff.mp hsummary
  exact ⟨s, rs, ⟨hs, hrs⟩, hsummary, balanced_of_run hs hrs⟩

end Batch

end CircuitDesk
