import CircuitDesk.Schedule

/-!
The cells of a drawing. A column has one cell per row; its gates paint their marks onto plain wires, and
a gate over several rows then links them by connectors.
-/
namespace CircuitDesk

namespace Drawing

inductive Mark where
  | wire
  | crossing
  | box (text : Bytes) (isCall : Bool)
  | control (positive : Bool)
  | target (symbol : Bytes)
  | init (value : Bool)
  | label (text : Bytes)
deriving DecidableEq, Repr

structure Cell where
  mark : Mark
  above : Bool
  below : Bool
deriving DecidableEq, Repr

def Cell.ofMark (m : Mark) : Cell := ⟨m, false, false⟩

def Cell.blank : Cell := .ofMark .wire

def callText (c : Call) : Bytes :=
  let count := if 1 < c.repetitions then Bytes.ofInt64 c.repetitions ++ "x" else []
  let star := if c.inverted then [42] else []
  count ++ c.name ++ star

def boxText (name : Bytes) (inverted : Bool) : Bytes := name ++ if inverted then [42] else []

def targetMark (op : GateOp) (inverted : Bool) (control : Control) : Mark :=
  if op = .swap then .target "×"
  else if op = .not ∧ control.isControlled then .target "⊕"
  else .box (boxText op.name inverted) false

def rotationName (op : RotationOp) : Bytes := if op = .expZt then "exp" else "R"

def controlMarks (c : Control) : List (Wire × Mark) := c.refs.map fun r => (r.wire, .control r.positive)

def marks : Gate → List (Wire × Mark)
  | .named op inverted w control => (w, targetMark op inverted control) :: controlMarks control
  | .rotation op inverted _ w => [(w, .box (boxText (rotationName op) inverted) false)]
  | .init value w _ => [(w, .init value)]
  | .comment _ labels => labels.map fun l => (l.wire, .label l.label)
  | .call c => (c.wires.map fun w => (w, .box (callText c) true)) ++ controlMarks c.control

def paintMark (row : Wire → Nat) (cells : List Cell) (m : Wire × Mark) : List Cell :=
  cells.set (row m.1) (.ofMark m.2)

def connect (s : Span) (cells : List Cell) : List Cell :=
  cells.mapIdx fun r cell =>
    if s.contains r then
      ⟨if cell.mark = .wire then .crossing else cell.mark, s.lo < r, r < s.hi⟩
    else cell

def isLinked : Gate → Bool
  | .comment .. => false
  | _ => true

def paintGate (row : Wire → Nat) (cells : List Cell) (g : Gate) : List Cell :=
  let marked := (marks g).foldl (paintMark row) cells
  match g.span? row with
  | none => marked
  | some s => if isLinked g ∧ s.lo < s.hi then connect s marked else marked

def column (row : Wire → Nat) (rows : Nat) (gates : List Gate) : List Cell :=
  gates.foldl (paintGate row) (List.replicate rows .blank)

end Drawing

end CircuitDesk
