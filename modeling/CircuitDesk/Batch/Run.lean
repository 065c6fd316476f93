import CircuitDesk.Batch.Result

/-!
Runs of a batch as a machine of small steps. Inputs are entered in order while fewer slots are taken than the runner
has workers. The worker of an input starts its parse and waits until the outcome is delivered, its time is up or the
caller's context ends; its slot is free again when its result is there. A worker that gives up does not stop its
parse, which goes on by itself.
-/
namespace CircuitDesk.Batch

structure Runner where
  workers : Nat
  /-- Time for one input; zero or less sets no limit. -/
  timeout : Duration
  strict : Bool
deriving DecidableEq, Repr

namespace Runner

def standard (processors : Nat := 4) : Runner := ⟨processors, .ofSeconds 10, false⟩

def withWorkers (r : Runner) (n : Int) : Runner := if 0 < n then { r with workers := n.toNat } else r

def hasTimeout (r : Runner) : Bool := 0 < r.timeout.nanoseconds

end Runner

structure Input where
  name : Bytes
  source : Except Files.Error Bytes

def Input.ofText (name text : Bytes) : Input := ⟨name, .ok text⟩

def Input.ofPath (fs : Files) (path : Bytes) : Input := ⟨path, fs.read path⟩

def Runner.outcome (r : Runner) (i : Input) : Outcome :=
  match i.source with
  | .error e => .unreadable e
  | .ok text =>
    match Source.parse ⟨i.name, r.strict⟩ text with
    | .ok p => .parsed p
    | .error e => .refused e

inductive StopCause where
  | deadline
  | cancelled
deriving DecidableEq, Repr

def Runner.stopped (r : Runner) : StopCause → Outcome
  | .deadline => .timedOut r.timeout
  | .cancelled => .cancelled

/-- A worker takes a slot when it is entered, and gives it back when it is released. -/
inductive WorkerState where
  | waiting
  | entered
  | busy
  | done (r : Result)
  | released (r : Result)
deriving DecidableEq, Repr

inductive ParseState where
  | idle
  | spawned
  | running
  | returned
  | delivered
deriving DecidableEq, Repr

/-- An input on its way. `stop` is the first reason to give up that came. -/
structure Job where
  input : Input
  worker : WorkerState
  parse : ParseState
  stop : Option StopCause

inductive Move where
  | enter
  | begin
  | parseStarts
  | parseReturns
  | deliver
  | deadlinePasses
  | takeOutcome
  | giveUp
  | release
deriving DecidableEq, Repr

namespace Job

def new (i : Input) : Job := ⟨i, .waiting, .idle, none⟩

def isParsing (j : Job) : Bool := j.parse = .running

def holdsSlot (j : Job) : Bool :=
  match j.worker with
  | .entered | .busy | .done _ => true
  | .waiting | .released _ => false

def result? (j : Job) : Option Result :=
  match j.worker with
  | .done r | .released r => some r
  | _ => none

def released? (j : Job) : Option Result :=
  match j.worker with
  | .released r => some r
  | _ => none

def finish (j : Job) (o : Outcome) : Job := { j with worker := .done ⟨j.input.name, o⟩ }

def endContext (j : Job) (c : StopCause) : Job :=
  if j.worker = .busy then { j with stop := j.stop.or (some c) } else j

/-- The job behind a move, if the move can happen. A file that cannot be read is done when its worker begins; every
other input spawns its parse. -/
def move? (r : Runner) (context : Option StopCause) (j : Job) : Move → Option Job
  | .enter => if j.worker = .waiting then some { j with worker := .entered } else none
  | .begin =>
    if j.worker = .entered then
      match j.input.source with
      | .error e => some (j.finish (.unreadable e))
      | .ok _ => some { j with worker := .busy, parse := .spawned, stop := context }
    else none
  | .parseStarts => if j.parse = .spawned then some { j with parse := .running } else none
  | .parseReturns => if j.parse = .running then some { j with parse := .returned } else none
  | .deliver => if j.parse = .returned then some { j with parse := .delivered } else none
  | .deadlinePasses =>
    if j.worker = .busy ∧ r.hasTimeout then some { j with stop := j.stop.or (some .deadline) } else none
  | .takeOutcome =>
    if j.worker = .busy ∧ j.parse = .delivered then some (j.finish (r.outcome j.input)) else none
  | .giveUp => if j.worker = .busy then j.stop.map fun c => j.finish (r.stopped c) else none
  | .release =>
    match j.worker with
    | .done res => some { j with worker := .released res }
    | _ => none

def newLines (j j' : Job) : List LogLine :=
  match j.result?, j'.result? with
  | none, some res => res.logLines
  | _, _ => []

end Job

structure State where
  jobs : List Job
  context : Option StopCause
  log : List LogLine

inductive Event where
  | move (i : Nat) (m : Move)
  | contextEnds (c : StopCause)
deriving DecidableEq, Repr

namespace State

def initial (inputs : List Input) (context : Option StopCause) : State := ⟨inputs.map Job.new, context, []⟩

def slotsTaken (s : State) : Nat := s.jobs.countP Job.holdsSlot

def parsingCount (s : State) : Nat := s.jobs.countP Job.isParsing

def enteredBefore (s : State) (i : Nat) : Bool := (s.jobs.take i).all fun j => j.worker ≠ .waiting

def mayEnter (r : Runner) (s : State) (i : Nat) : Bool := s.enteredBefore i && s.slotsTaken < r.workers

def put (s : State) (i : Nat) (j j' : Job) : State :=
  { s with jobs := s.jobs.set i j', log := s.log ++ j.newLines j' }

def step (r : Runner) (s : State) : Event → Option State
  | .move i m =>
    match s.jobs[i]? with
    | none => none
    | some j => if m = .enter ∧ ¬ s.mayEnter r i then none else (j.move? r s.context m).map (s.put i j)
  | .contextEnds c =>
    if s.context = none then some { s with context := some c, jobs := s.jobs.map (·.endContext c) } else none

def run (r : Runner) (s : State) : List Event → Option State
  | [] => some s
  | e :: es => (s.step r e).bind (run r · es)

def result? (s : State) (i : Nat) : Option Result := s.jobs[i]?.bind Job.result?

def results? (s : State) : Option (List Result) := s.jobs.mapM Job.released?

end State

/-- What happens to an input by itself: its parse is waited for, or what stops it if the parse never returns. -/
def Input.script (i : Input) (cancelled : Bool) (neverReturns : Bytes → Bool) : List Move :=
  match i.source with
  | .error _ => [.enter, .begin, .release]
  | .ok text =>
    if cancelled then [.enter, .begin, .giveUp, .release]
    else if neverReturns text then [.enter, .begin, .parseStarts, .deadlinePasses, .giveUp, .release]
    else [.enter, .begin, .parseStarts, .parseReturns, .deliver, .takeOutcome, .release]

def sequential (cancelled : Bool) (neverReturns : Bytes → Bool) (inputs : List Input) : List Event :=
  inputs.zipIdx.flatMap fun (input, i) => (input.script cancelled neverReturns).map (.move i)

def Runner.runAll (r : Runner) (cancelled : Bool) (neverReturns : Bytes → Bool) (inputs : List Input) :
    Option (List Result × List LogLine) := do
  let context := if cancelled then some .cancelled else none
  let s ← (State.initial inputs context).run r (sequential cancelled neverReturns inputs)
  return (← s.results?, s.log)

def Runner.loadFile (r : Runner) (fs : Files) (path : Bytes) : Result :=
  ⟨path, r.outcome (.ofPath fs path)⟩

end CircuitDesk.Batch
