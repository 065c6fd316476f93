import CircuitDesk.Display.Cluster
import CircuitDesk.Display.Escape

/-!
Text on a terminal. Escape sequences and control characters take no column and survive every cut; what is
shown are the basic characters outside of sequences and the clusters that start with any other character.
-/
namespace CircuitDesk.Display

def isLead (b : UInt8) : Bool := 0xC2 ≤ b && b ≤ 0xF4

inductive Piece where
  | shown (text : Bytes) (width : Nat)
  | hidden (b : UInt8)
deriving DecidableEq, Repr

def Piece.text : Piece → Bytes
  | shown t _ => t
  | hidden b => [b]

def Piece.width : Piece → Nat
  | shown _ w => w
  | hidden _ => 0

def firstPiece (s : EscapeState) (b : UInt8) (rest : Bytes) : Piece × Nat :=
  if isLead b && !s.hidesCharacters then
    let (n, w) := firstCluster b rest
    (.shown (b :: rest.take n) w, n)
  else if s = .ground ∧ 0x20 ≤ b ∧ b ≤ 0x7E then (.shown [b] 1, 0)
  else (.hidden b, 0)

def EscapeState.afterPiece (s : EscapeState) : Piece → EscapeState
  | .shown .. => ground
  | .hidden b => s.next b

def piecesFrom (s : EscapeState) : Bytes → List Piece
  | [] => []
  | b :: rest =>
    let p := (firstPiece s b rest).1
    p :: piecesFrom (s.afterPiece p) (rest.drop (firstPiece s b rest).2)
termination_by t => t.length
decreasing_by
  simp only [List.length_drop, List.length_cons]
  omega

def pieces (t : Bytes) : List Piece := piecesFrom .ground t

def piecesWidth : List Piece → Nat
  | [] => 0
  | p :: ps => p.width + piecesWidth ps

def width (t : Bytes) : Nat := piecesWidth (pieces t)

def hiddenOnly (s : EscapeState) : Bytes → Bytes
  | [] => []
  | b :: rest =>
    let more := rest.drop (firstPiece s b rest).2
    match (firstPiece s b rest).1 with
    | .shown .. => hiddenOnly s more
    | .hidden b => b :: hiddenOnly (s.next b) more
termination_by t => t.length
decreasing_by
  all_goals
    simp only [List.length_drop, List.length_cons]
    omega

def keepFirst (tail : Bytes) (s : EscapeState) (room : Nat) : Bytes → Bytes
  | [] => []
  | b :: rest =>
    let more := rest.drop (firstPiece s b rest).2
    match (firstPiece s b rest).1 with
    | .shown t w =>
      if w ≤ room then t ++ keepFirst tail .ground (room - w) more else tail ++ hiddenOnly s more
    | .hidden b => b :: keepFirst tail (s.next b) room more
termination_by t => t.length
decreasing_by
  all_goals
    simp only [List.length_drop, List.length_cons]
    omega

/-- The text if it fits into `n` columns, and otherwise its first columns with a tail, `n` in all. -/
def truncate (t : Bytes) (n : Nat) (tail : Bytes) : Bytes :=
  if width t ≤ n then t
  else if n < width tail then []
  else keepFirst tail .ground (n - width tail) t

/-- The text without its first `n` columns. A character goes if it ends within them; hidden pieces stay. -/
def dropColumns (s : EscapeState) (n : Nat) : Bytes → Bytes
  | [] => []
  | b :: rest =>
    let more := rest.drop (firstPiece s b rest).2
    match (firstPiece s b rest).1 with
    | .shown t w => if w ≤ n then dropColumns s (n - w) more else t ++ more
    | .hidden b => b :: dropColumns (s.next b) n more
termination_by t => t.length
decreasing_by
  all_goals
    simp only [List.length_drop, List.length_cons]
    omega

def truncateLeft (t : Bytes) (n : Nat) : Bytes := if n = 0 then t else dropColumns .ground n t

/-- A line with the columns from `x` on replaced by another line. A short line is filled with blanks up to
`x`, and what would stand left of the first column pushes the rest to the right. -/
def spliceLine (line cover : Bytes) (x : Int) : Bytes :=
  let kept := if x < 0 then [] else truncate line x.toNat []
  kept ++ Bytes.spaces (x.toNat - width kept) ++ cover ++ truncateLeft line (x + width cover).toNat

def coveringLine? (coverLines : List Bytes) (y : Int) (i : Nat) : Option Bytes :=
  if (i : Int) < y then none else coverLines[((i : Int) - y).toNat]?

def overlayLines (lines coverLines : List Bytes) (x y : Int) : List Bytes :=
  lines.zipIdx.map fun (line, i) =>
    match coveringLine? coverLines y i with
    | some cover => spliceLine line cover x
    | none => line

def overlayAt (text cover : Bytes) (x y : Int) : Bytes :=
  Bytes.unlines (overlayLines (Bytes.lines text) (Bytes.lines cover) x y)

end CircuitDesk.Display
