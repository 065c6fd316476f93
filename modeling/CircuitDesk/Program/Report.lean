import CircuitDesk.Program
import CircuitDesk.SemanticFault

namespace CircuitDesk

/-- A call: the subroutine whose body holds it (no name for the main circuit), its place among the gates of
that body, the name it calls and where it stands in the source. -/
structure CallSite where
  caller : Bytes
  index : Nat
  name : Bytes
  pos : Position
deriving DecidableEq, Repr

structure Report where
  resolved : List CallSite
  unresolved : List CallSite
  recursive : List Bytes
deriving DecidableEq, Repr

def Report.unresolvedNames (r : Report) : List Bytes :=
  Bytes.sorted (firstOccurrences (r.unresolved.map CallSite.name))

namespace Declaration

def check (list : Bytes) (owner : Owner) (seen : List Wire) : List Declaration → Except SemanticFault Unit
  | [] => .ok ()
  | d :: ds =>
    if d.wire < 0 then .error ⟨.unplaced, [], .negativeDeclaredWire d.wire list owner⟩
    else if d.wire ∈ seen then .error ⟨.unplaced, [], .duplicateDeclaredWire d.wire list owner⟩
    else check list owner (d.wire :: seen) ds

end Declaration

namespace Gate

def offence (owner : Owner) (i : Nat) (g : Gate) : Option SemanticFault :=
  match g.wires.find? (· < 0) with
  | some w => some ⟨.unplaced, [], .negativeGateWire i owner w⟩
  | none =>
    match g with
    | .named op _ _ _ => if op.isKnown then none else some ⟨.unplaced, op.name, .unknownGateAt i owner⟩
    | .rotation op _ _ _ =>
      if op.isKnown then none else some ⟨.unplaced, op.name, .unknownRotationAt i owner⟩
    | .call c =>
      if c.repetitions < 1 then some ⟨.unplaced, c.name, .badRepetitionAt i owner c.repetitions⟩
      else if c.name = [] then some ⟨.unplaced, [], .namelessCallAt i owner⟩
      else none
    | .init .. => none
    | .comment .. => none

end Gate

namespace Circuit

def check (owner : Owner) (c : Circuit) : Except SemanticFault Unit := do
  Declaration.check Direction.inputs.name owner [] c.inputs
  Declaration.check Direction.outputs.name owner [] c.outputs
  match c.gates.zipIdx.findSome? fun (g, i) => g.offence owner i with
  | some e => .error e
  | none => .ok ()

def calls (c : Circuit) : List (Nat × Call) :=
  c.gates.zipIdx.filterMap fun
    | (.call k, i) => some (i, k)
    | _ => none

end Circuit

namespace Program

def check (p : Program) : Except SemanticFault Unit := do
  names [] p.subroutines
  p.main.check .main
  p.subroutines.forM fun s => s.circuit.check (.ofName s.name)
where
  names (seen : List Bytes) : List Subroutine → Except SemanticFault Unit
    | [] => .ok ()
    | s :: ss =>
      if s.name ∈ seen then .error ⟨.unplaced, s.name, .duplicateSubroutine⟩ else names (s.name :: seen) ss

def calls (p : Program) : List (Bytes × Nat × Call) :=
  (p.main.calls.map fun k => ([], k)) ++
    p.subroutines.flatMap fun s => s.circuit.calls.map fun k => (s.name, k)

def callSites (p : Program) (positions : List Position) : List CallSite :=
  p.calls.zipIdx.map fun ((caller, i, k), n) => ⟨caller, i, k.name, (positions[n]?).getD .unplaced⟩

def without (names : List Bytes) (n : Bytes) : List Bytes := names.filter (· ≠ n)

theorem length_without_lt {names : List Bytes} {n : Bytes} (h : n ∈ names) :
    (without names n).length < names.length :=
  List.length_filter_lt_length_iff_exists.mpr ⟨n, h, by simp⟩

def callees (edges : List (Bytes × Bytes)) (n : Bytes) : List Bytes :=
  (edges.filter (·.1 = n)).map (·.2)

/-- Whether `target` is reached from some name on the stack. Names leave `unvisited` when their calls have
been put on the stack, so each is expanded once. -/
def reachesFrom (edges : List (Bytes × Bytes)) (target : Bytes) (unvisited stack : List Bytes) : Bool :=
  match stack with
  | [] => false
  | n :: stack =>
    if n = target then true
    else if n ∈ unvisited then
      reachesFrom edges target (without unvisited n) (callees edges n ++ stack)
    else reachesFrom edges target unvisited stack
termination_by (unvisited.length, stack.length)
decreasing_by
  · exact Prod.Lex.left _ _ (length_without_lt ‹_›)
  · exact Prod.Lex.right _ (by simp)

def recursiveNames (p : Program) (resolved : List CallSite) : List Bytes :=
  let edges := (resolved.filter (·.caller ≠ [])).map fun s => (s.caller, s.name)
  let names := p.subroutines.map Subroutine.name
  names.filter fun n => reachesFrom edges n names (callees edges n)

def report (p : Program) (positions : List Position) : Report :=
  let sites := p.callSites positions
  let isResolved := fun s : CallSite => (p.subroutine? s.name).isSome
  let resolved := sites.filter isResolved
  ⟨resolved, sites.filter (fun s => !isResolved s), p.recursiveNames resolved⟩

/-- The report of a program that passes its checks. Calls to undefined subroutines and recursion are listed,
not refused. -/
def validate (p : Program) (positions : List Position) : Except SemanticFault Report := do
  p.check
  return p.report positions

end Program

end CircuitDesk
