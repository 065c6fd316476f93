import CircuitDesk.Binary64
import CircuitDesk.Operation

namespace CircuitDesk

abbrev Wire := Int64

/-- A control on a wire; positive ones fire on one, negative ones on zero. -/
structure ControlRef where
  wire : Wire
  positive : Bool
deriving DecidableEq, Repr

def ControlRef.text (c : ControlRef) : Bytes := (if c.positive then 43 else 45) :: Bytes.ofInt64 c.wire

structure Control where
  refs : List ControlRef
  noControl : Bool
deriving DecidableEq, Repr

def Control.none : Control := ⟨[], false⟩

def Control.isControlled (c : Control) : Bool := !c.refs.isEmpty

def Control.wires (c : Control) : List Wire := c.refs.map ControlRef.wire

structure WireLabel where
  wire : Wire
  label : Bytes
deriving DecidableEq, Repr

structure Call where
  repetitions : Int64
  name : Bytes
  shape : Bytes
  inverted : Bool
  inputs : List Wire
  outputs : List Wire
  control : Control
deriving DecidableEq, Repr

def firstOccurrences {α : Type} [DecidableEq α] : List α → List α
  | [] => []
  | a :: as => a :: (firstOccurrences as).filter (· ≠ a)

def Call.wires (c : Call) : List Wire := firstOccurrences (c.inputs ++ c.outputs) ++ c.control.wires

/-- A statement of a circuit. Comments attach a text and labels to wires; a wire may have several. -/
inductive Gate where
  | named (op : GateOp) (inverted : Bool) (wire : Wire) (control : Control)
  | rotation (op : RotationOp) (inverted : Bool) (timestep : Binary64) (wire : Wire)
  | init (value : Bool) (wire : Wire) (label : Bytes)
  | comment (text : Bytes) (labels : List WireLabel)
  | call (c : Call)
deriving DecidableEq, Repr

namespace Gate

/-- Every wire the gate touches: targets, then controls, in source order. -/
def wires : Gate → List Wire
  | named _ _ w c => w :: c.wires
  | rotation _ _ _ w => [w]
  | init _ w _ => [w]
  | comment _ ls => ls.map WireLabel.wire
  | call c => c.wires

def kindName : Gate → Bytes
  | named .. => "QGate"
  | rotation .. => "QRot"
  | init .. => "QInit"
  | comment .. => "Comment"
  | call _ => "Subroutine"

end Gate

end CircuitDesk
