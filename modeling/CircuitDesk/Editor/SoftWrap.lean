import CircuitDesk.Display.Grid
import CircuitDesk.Display.Wrap

/-!
How the editor breaks a long line into rows. Every character of the line is in exactly one row, and the last
row ends with one more blank for the cursor behind the text.
-/
namespace CircuitDesk.Editor

def isBlank (c : Char) : Bool := c.toNat = 0xA0 || Display.isBreakingBlank c.toNat

def columns (cs : List Char) : Nat := Display.clustersWidth (Bytes.ofChars cs)

structure Rows where
  done : List (List Char)
  row : List Char
  word : List Char

namespace Rows

def push (s : Rows) (blanks : Nat) : Rows :=
  ⟨s.row :: s.done, s.word ++ List.replicate blanks ' ', []⟩

def extend (s : Rows) (blanks : Nat) : Rows := ⟨s.done, s.row ++ s.word ++ List.replicate blanks ' ', []⟩

def add (width : Nat) (s : Rows) (c : Char) : Rows :=
  if isBlank c then
    if width < columns s.row + columns s.word + 1 then s.push 1 else s.extend 1
  else
    let s := { s with word := s.word ++ [c] }
    if width < columns s.word + Display.gridCharWidth c.toNat then
      if s.row = [] then s.extend 0 else s.push 0
    else s

def finish (width : Nat) (s : Rows) : List (List Char) :=
  let s := if width ≤ columns s.row + columns s.word then s.push 1 else s.extend 1
  (s.row :: s.done).reverse

end Rows

def rows (width : Nat) (line : List Char) : List (List Char) :=
  (line.foldl (Rows.add width) ⟨[], [], []⟩).finish width

structure Place where
  height : Nat
  row : Nat
  start : Nat
  length : Nat
  /-- The columns of the screen that the row takes; at the end of a row still those of that row. -/
  width : Nat
  offset : Nat

/-- The place of a column among rows. The end of a row is the start of the next one; columns in front of the
line count as its first row. -/
def placeIn (height : Nat) (column : Int) (i start : Nat) : List (List Char) → Place
  | [] => ⟨height, i, start, 0, 0, 0⟩
  | [r] => ⟨height, i, start, r.length, columns r, columns (r.take (column - start).toNat)⟩
  | r :: next :: more =>
    if ((start + r.length : Nat) : Int) = column then
      ⟨height, i + 1, start + r.length, next.length, columns r, 0⟩
    else if column < (start + r.length : Nat) then
      ⟨height, i, start, r.length, columns r, columns (r.take (column - start).toNat)⟩
    else placeIn height column (i + 1) (start + r.length) (next :: more)

def placeOf (width : Nat) (line : List Char) (column : Int) : Place :=
  let rs := rows width line
  placeIn rs.length column 0 0 rs

def advance (goal rowWidth : Nat) (offset : Nat) : List Char → Nat
  | [] => 0
  | c :: cs =>
    if offset < goal ∧ offset + 1 < rowWidth then advance goal rowWidth (offset + Display.gridCharWidth c.toNat) cs + 1
    else 0

end CircuitDesk.Editor
