import CircuitDesk.Circuit

/-!
The columns of a drawing. Wires are rows in ascending order. A gate occupies every row from its lowest to
its highest wire and goes into the earliest column where these rows are free. A comment, a call over several
rows and a gate without wires are exclusive: they share their column with no other gate and nothing moves
across them.
-/
namespace CircuitDesk

structure Span where
  lo : Nat
  hi : Nat
deriving DecidableEq, Repr

namespace Span

def contains (s : Span) (r : Nat) : Bool := s.lo ≤ r && r ≤ s.hi

def rows (s : Span) : List Nat := List.range' s.lo (s.hi + 1 - s.lo)

def around (r : Nat) (rs : List Nat) : Span := ⟨rs.foldl min r, rs.foldl max r⟩

end Span

namespace Gate

def span? (row : Wire → Nat) (g : Gate) : Option Span :=
  match g.wires with
  | [] => none
  | w :: ws => some (.around (row w) (ws.map row))

/-- The rows of a gate that may share its column; nothing for an exclusive gate. -/
def sharedSpan? (row : Wire → Nat) (g : Gate) : Option Span :=
  match g with
  | .comment .. => none
  | .call _ => (g.span? row).filter fun s => s.lo = s.hi
  | _ => g.span? row

end Gate

/-- What is taken so far: the first free column of each row, the column before which nothing may be placed,
and the number of columns in use. -/
structure Frontier where
  free : Nat → Nat
  barrier : Nat
  used : Nat

namespace Frontier

def initial : Frontier := ⟨fun _ => 0, 0, 0⟩

def column (f : Frontier) : Option Span → Nat
  | none => f.used
  | some s => (s.rows.map f.free).foldl max f.barrier

def take (f : Frontier) (col : Nat) : Option Span → Frontier
  | none => ⟨fun _ => col + 1, col + 1, col + 1⟩
  | some s => ⟨fun r => if s.contains r then col + 1 else f.free r, f.barrier, max f.used (col + 1)⟩

end Frontier

def assignColumns (f : Frontier) : List (Option Span) → List Nat
  | [] => []
  | s :: ss => f.column s :: assignColumns (f.take (f.column s) s) ss

def rowAmong (ws : List Wire) (w : Wire) : Nat := ws.idxOf w

namespace Circuit

def row (c : Circuit) (w : Wire) : Nat := rowAmong c.wires w

def gateColumns (c : Circuit) : List Nat :=
  let ws := c.wires
  assignColumns .initial (c.gates.map (Gate.sharedSpan? (rowAmong ws)))

def layout (c : Circuit) : List (List Nat) :=
  let cols := c.gateColumns
  (List.range (cols.foldl (fun n k => max n (k + 1)) 0)).map fun k =>
    cols.zipIdx.filterMap fun (col, i) => if col = k then some i else none

end Circuit

end CircuitDesk
