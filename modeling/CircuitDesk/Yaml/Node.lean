import CircuitDesk.Bytes

/-!
YAML documents as trees. Every part knows the line it starts on, counted from zero. A part with an anchor can be
referred to from elsewhere, even from inside itself, so references go by number to a list of such parts.
-/
namespace CircuitDesk.Yaml

inductive Node where
  | scalar (line : Nat) (tag : Bytes) (implicit : Bool) (text : Bytes)
  | reference (line : Nat) (name : Bytes) (target number : Nat)
  | sequence (line : Nat) (items : List Node)
  | mapping (line : Nat) (entries : List (Node × Node))
deriving Repr

def Node.line : Node → Nat
  | scalar l _ _ _ => l
  | reference l _ _ _ => l
  | sequence l _ => l
  | mapping l _ => l

def Node.isReference : Node → Bool
  | reference .. => true
  | _ => false

def Node.absent (line : Nat) : Node := .scalar line [] true []

structure Document where
  root : Node
  anchored : List (Nat × Node)
  references : Nat
  /-- No path through the tree is longer than this. -/
  depthBound : Nat
deriving Repr

end CircuitDesk.Yaml
