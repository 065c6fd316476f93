import CircuitDesk.Bytes

namespace CircuitDesk

/-- Named gates: Paulis, Hadamard, the Clifford gates `S`, `E` and `omega`, the roots `T` and `V`, the
swap and what diagonalises it. Numbers outside the table are kept. -/
inductive GateOp where
  | not
  | hadamard
  | multinot
  | y
  | z
  | s
  | t
  | e
  | omega
  | v
  | swap
  | w
  | ix
  | unknown (number : Int64)
deriving DecidableEq, Repr

namespace GateOp

def all : List GateOp := [not, hadamard, multinot, y, z, s, t, e, omega, v, swap, w, ix]

def ofNumber (n : Int64) : GateOp :=
  if n < 0 then unknown n else (all[n.toInt.toNat]?).getD (unknown n)

def name : GateOp → Bytes
  | not => "not"
  | hadamard => "H"
  | multinot => "multinot"
  | y => "Y"
  | z => "Z"
  | s => "S"
  | t => "T"
  | e => "E"
  | omega => "omega"
  | v => "V"
  | swap => "swap"
  | w => "W"
  | ix => "iX"
  | unknown n => Bytes.ofString "QGateOp(" ++ Bytes.ofInt64 n ++ ")"

def title : GateOp → Bytes
  | not => "Not"
  | multinot => "MultiNot"
  | omega => "Omega"
  | swap => "Swap"
  | ix => "IX"
  | op => op.name

def aliases : List (Bytes × GateOp) := [("x", not), ("X", not)]

def lookup (name : Bytes) : Option GateOp :=
  ((all.map fun op => (op.name, op)) ++ aliases).lookup name

def number : GateOp → Int64
  | unknown n => n
  | op => Int64.ofNat (all.idxOf op)

def isKnown : GateOp → Bool
  | unknown _ => false
  | _ => true

end GateOp

/-- Rotations: `exp(-iZt)` by a time step and the rotation by `2 pi / 2^n` about z. -/
inductive RotationOp where
  | expZt
  | r
  | unknown (number : Int64)
deriving DecidableEq, Repr

namespace RotationOp

def all : List RotationOp := [expZt, r]

def ofNumber (n : Int64) : RotationOp :=
  if n < 0 then unknown n else (all[n.toInt.toNat]?).getD (unknown n)

def name : RotationOp → Bytes
  | expZt => "exp(-i%Z)"
  | r => "R(2pi/%)"
  | unknown n => Bytes.ofString "QRotOp(" ++ Bytes.ofInt64 n ++ ")"

def title : RotationOp → Bytes
  | expZt => "ExpZt"
  | r => "R"
  | op => op.name

def lookup (name : Bytes) : Option RotationOp :=
  (all.map fun op => (op.name, op)).lookup name

def number : RotationOp → Int64
  | unknown n => n
  | op => Int64.ofNat (all.idxOf op)

def isKnown : RotationOp → Bool
  | unknown _ => false
  | _ => true

end RotationOp

end CircuitDesk
