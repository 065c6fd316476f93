import CircuitDesk.Circuit

namespace CircuitDesk

structure Tally where
  entries : List (Bytes × Int64)
deriving DecidableEq, Repr

namespace Tally

def empty : Tally := ⟨[]⟩

def addTo (name : Bytes) (n : Int64) : List (Bytes × Int64) → List (Bytes × Int64)
  | [] => [(name, n)]
  | (k, v) :: rest =>
    if k = name then (k, v + n) :: rest
    else if name < k then (name, n) :: (k, v) :: rest
    else (k, v) :: addTo name n rest

/-- Adds to the number of a name; the sum wraps at 64 bits. -/
def add (t : Tally) (name : Bytes) (n : Int64) : Tally := ⟨addTo name n t.entries⟩

def get (t : Tally) (name : Bytes) : Int64 := (t.entries.lookup name).getD 0

def ofList (items : List (Bytes × Int64)) : Tally := items.foldl (fun t (k, n) => t.add k n) empty

def count (names : List Bytes) : Tally := ofList (names.map (·, 1))

end Tally

namespace Gate

def operation? : Gate → Option Bytes
  | .named op _ _ _ => some op.title
  | .rotation op _ _ _ => some op.title
  | .init value _ _ => some (if value then Bytes.ofString "Init1" else Bytes.ofString "Init0")
  | .comment .. => none
  | .call _ => none

def call? : Gate → Option Call
  | .call c => some c
  | _ => none

def isComment : Gate → Bool
  | .comment .. => true
  | _ => false

def isControlled : Gate → Bool
  | .named _ _ _ c => c.isControlled
  | .call c => c.control.isControlled
  | _ => false

def isInverted : Gate → Bool
  | .named _ inverted _ _ => inverted
  | .rotation _ inverted _ _ => inverted
  | .call c => c.inverted
  | _ => false

end Gate

/-- Counts of one circuit. Comments are counted by kind only; `calls` counts call sites by name and
`applications` multiplies them by their repetitions. -/
structure Statistics where
  gates : Nat
  controlled : Nat
  inverted : Nat
  wires : Nat
  byKind : Tally
  byOperation : Tally
  calls : Tally
  applications : Tally
deriving DecidableEq, Repr

def Circuit.statistics (c : Circuit) : Statistics where
  gates := c.gates.countP (fun g => !g.isComment)
  controlled := c.gates.countP Gate.isControlled
  inverted := c.gates.countP Gate.isInverted
  wires := (firstOccurrences c.mentionedWires).length
  byKind := .count (c.gates.map Gate.kindName)
  byOperation := .count (c.gates.filterMap Gate.operation?)
  calls := .count ((c.gates.filterMap Gate.call?).map Call.name)
  applications := .ofList ((c.gates.filterMap Gate.call?).map fun k => (k.name, k.repetitions))

end CircuitDesk
