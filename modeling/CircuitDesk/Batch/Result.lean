import CircuitDesk.Duration
import CircuitDesk.Files
import CircuitDesk.Source

namespace CircuitDesk.Batch

inductive Outcome where
  | parsed (p : CheckedProgram)
  | refused (e : Fault)
  | timedOut (limit : Duration)
  | cancelled
  | unreadable (e : Files.Error)
deriving DecidableEq, Repr

structure Result where
  name : Bytes
  outcome : Outcome
deriving DecidableEq, Repr

namespace Result

def program? (r : Result) : Option CheckedProgram :=
  match r.outcome with
  | .parsed p => some p
  | _ => none

def isTimeout (r : Result) : Bool :=
  match r.outcome with
  | .timedOut _ => true
  | _ => false

def error? (r : Result) : Option Bytes :=
  match r.outcome with
  | .parsed _ => none
  | .refused e => some e.message
  | .timedOut d => some (r.name ++ " after " ++ d.text ++ ": parse timed out")
  | .cancelled => some (r.name ++ ": context canceled")
  | .unreadable e => some (Bytes.ofString "read input: " ++ e.message)

def status (r : Result) : Bytes :=
  match r.outcome with
  | .parsed _ => "ok"
  | .refused e => e.kind?.getD "error"
  | .timedOut _ => "timeout"
  | .cancelled => "error"
  | .unreadable _ => "io"

def unresolvedNames (r : Result) : List Bytes := (r.program?.map fun p => p.report.unresolvedNames).getD []

end Result

inductive LogLine where
  | parsed (file : Bytes) (gates subroutines : Nat)
  | unresolved (file : Bytes) (names : List Bytes)
  | failed (file status error : Bytes)
deriving DecidableEq, Repr

def LogLine.file : LogLine → Bytes
  | parsed f _ _ => f
  | unresolved f _ => f
  | failed f _ _ => f

inductive LogLevel where
  | debug
  | warn
deriving DecidableEq, Repr

def LogLine.level : LogLine → LogLevel
  | parsed .. => .debug
  | _ => .warn

def LogLine.message : LogLine → Bytes
  | parsed .. => "parsed input"
  | unresolved .. => "unresolved subroutine calls"
  | failed .. => "parse failed"

def Result.logLines (r : Result) : List LogLine :=
  match r.program? with
  | none => [.failed r.name r.status (r.error?.getD [])]
  | some p =>
    .parsed r.name p.program.main.gates.length p.program.subroutines.length ::
      if r.unresolvedNames = [] then [] else [.unresolved r.name r.unresolvedNames]

structure Summary where
  total : Nat
  ok : Nat
  failed : Nat
  timedOut : Nat
  unresolved : Nat
deriving DecidableEq, Repr

def summarize (rs : List Result) : Summary where
  total := rs.length
  ok := rs.countP fun r => r.program?.isSome
  failed := rs.countP fun r => r.program?.isNone
  timedOut := rs.countP Result.isTimeout
  unresolved := rs.countP fun r => (r.program?.map fun p => !p.report.unresolved.isEmpty).getD false

end CircuitDesk.Batch
