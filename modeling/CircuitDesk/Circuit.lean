import CircuitDesk.Gate

namespace CircuitDesk

/-- Quantum or classical. Numbers outside the table are kept. -/
inductive WireType where
  | qbit
  | cbit
  | unknown (number : Int64)
deriving DecidableEq, Repr

namespace WireType

def ofNumber (n : Int64) : WireType := if n = 0 then qbit else if n = 1 then cbit else unknown n

def number : WireType → Int64
  | qbit => 0
  | cbit => 1
  | unknown n => n

def name : WireType → Bytes
  | qbit => "Qbit"
  | cbit => "Cbit"
  | unknown n => Bytes.ofString "WireType(" ++ Bytes.ofInt64 n ++ ")"

end WireType

structure Declaration where
  wire : Wire
  type : WireType
deriving DecidableEq, Repr

inductive Direction where
  | inputs
  | outputs
deriving DecidableEq, Repr

namespace Direction

def ofNumber (n : Int64) : Direction := if n = 1 then outputs else inputs

def name : Direction → Bytes
  | inputs => "Inputs"
  | outputs => "Outputs"

end Direction

structure Circuit where
  inputs : List Declaration
  gates : List Gate
  outputs : List Declaration
deriving DecidableEq, Repr

namespace Circuit

def empty : Circuit := ⟨[], [], []⟩

def mentionedWires (c : Circuit) : List Wire :=
  c.inputs.map Declaration.wire ++ c.gates.flatMap Gate.wires ++ c.outputs.map Declaration.wire

def wires (c : Circuit) : List Wire :=
  (firstOccurrences c.mentionedWires).mergeSort fun a b => decide (a ≤ b)

end Circuit

end CircuitDesk
