import CircuitDesk.Bytes.Chars
import CircuitDesk.Editor.SoftWrap

namespace CircuitDesk

/-- The lines above the cursor's line and the characters in front of the cursor with the nearest first, and
what is behind and below it in order. -/
structure Editor where
  above : List (List Char)
  before : List Char
  after : List Char
  below : List (List Char)
  width : Nat
  goal : Nat
deriving DecidableEq, Repr

namespace Editor

def marginWidth : Nat := 6

def maxWidth : Nat := 500

def textWidth (outer : Int) : Nat := min (max outer.toNat (marginWidth + 1)) maxWidth - marginWidth

def empty (outer : Int) : Editor := ⟨[], [], [], [], textWidth outer, 0⟩

def line (e : Editor) : List Char := e.before.reverse ++ e.after

def lines (e : Editor) : List (List Char) := e.above.reverse ++ e.line :: e.below

def text (e : Editor) : Bytes := Bytes.unlines (e.lines.map Bytes.ofChars)

def row (e : Editor) : Nat := e.above.length

def isControl (c : Char) : Bool := c.toNat < 0x20 || (0x7F ≤ c.toNat && c.toNat ≤ 0x9F)

def cleanChar (c : Char) : List Char :=
  if c = '\r' || c = '\n' then ['\n']
  else if c = '\t' then List.replicate 4 ' '
  else if c = Bytes.replacement || isControl c then []
  else [c]

def splitLines : List Char → List Char × List (List Char)
  | [] => ([], [])
  | c :: cs =>
    let (first, rest) := splitLines cs
    if c = '\n' then ([], first :: rest) else (c :: first, rest)

def behind (above : List (List Char)) (line : List Char) : List (List Char) → List (List Char) × List Char
  | [] => (above, line.reverse)
  | l :: ls => behind (line :: above) l ls

def maxLines : Nat := 10000

def lineCount (e : Editor) : Nat := e.above.length + e.below.length + 1

/-- Writes characters at the cursor. Lines beyond the most that are kept are left out. -/
def insert (e : Editor) (cs : List Char) : Editor :=
  let (first, rest) := splitLines (cs.flatMap cleanChar)
  if maxLines < e.lineCount then e
  else
    let (above, before) := behind e.above (e.before.reverse ++ first) (rest.take (maxLines - e.lineCount))
    { e with above := above, before := before, goal := 0 }

def setText (e : Editor) (t : Bytes) : Editor :=
  { e with above := [], before := [], after := [], below := [] }.insert (Bytes.chars t)

def setWidth (e : Editor) (outer : Int) : Editor := { e with width := textWidth outer }

def splitLine (e : Editor) : Editor := { e with above := e.before.reverse :: e.above, before := [] }

def joinAbove (e : Editor) : Editor :=
  match e.above with
  | [] => e
  | l :: ls => { e with above := ls, before := l.reverse }

def joinBelow (e : Editor) : Editor :=
  match e.below with
  | [] => e
  | l :: ls => { e with after := e.after ++ l, below := ls }

def deleteBefore (e : Editor) : Editor :=
  match e.before with
  | [] => e.joinAbove
  | _ :: cs => { e with before := cs, goal := 0 }

/-- Deletes the character under the cursor. If that leaves the cursor at the end of its line, the next line
is joined as well. -/
def deleteUnder (e : Editor) : Editor :=
  let e := { e with after := e.after.drop 1 }
  if e.after = [] then e.joinBelow else e

def deleteToEnd (e : Editor) : Editor := if e.after = [] then e.joinBelow else { e with after := [], goal := 0 }

def deleteToStart (e : Editor) : Editor :=
  if e.before = [] then e.joinAbove else { e with before := [], goal := 0 }

def toStart (e : Editor) : Editor := { e with before := [], after := e.line, goal := 0 }

def toEnd (e : Editor) : Editor := { e with before := e.line.reverse, after := [], goal := 0 }

def lineAbove (e : Editor) : Editor :=
  match e.above with
  | [] => e
  | l :: ls => { e with above := ls, before := [], after := l, below := e.line :: e.below }

def lineBelow (e : Editor) : Editor :=
  match e.below with
  | [] => e
  | l :: ls => { e with above := e.line :: e.above, before := [], after := l, below := ls }

def left (e : Editor) : Editor :=
  match e.before with
  | c :: cs => { e with before := cs, after := c :: e.after, goal := 0 }
  | [] => if e.above = [] then e else e.lineAbove.toEnd

def right (e : Editor) : Editor :=
  match e.after with
  | c :: cs => { e with before := c :: e.before, after := cs, goal := 0 }
  | [] => if e.below = [] then e else e.lineBelow.toStart

def toTextStart (e : Editor) : Editor :=
  match e.lines with
  | [] => e
  | l :: ls => { e with above := [], before := [], after := l, below := ls, goal := 0 }

def toTextEnd (e : Editor) : Editor :=
  match e.lines.reverse with
  | [] => e
  | l :: ls => { e with above := ls, before := l.reverse, after := [], below := [], goal := 0 }

def atColumn (e : Editor) (n : Nat) : Editor :=
  { e with before := (e.line.take n).reverse, after := e.line.drop n }

def placeAt (e : Editor) (column : Int) : Place := Editor.placeOf e.width e.line column

def place (e : Editor) : Place := e.placeAt e.before.length

def towardsGoal (e : Editor) (column : Int) : Editor :=
  let p := e.placeAt column
  let e := e.atColumn p.start
  if p.length = 0 then e else e.atColumn (p.start + advance e.goal p.width 0 e.after)

def hiddenBlanks : Nat := 2

def up (e : Editor) : Editor :=
  let p := e.place
  let e := { e with goal := max e.goal p.offset }
  if p.row = 0 ∧ e.above ≠ [] then
    let e := e.lineAbove
    e.towardsGoal e.line.length
  else e.towardsGoal ((p.start : Int) - hiddenBlanks)

def down (e : Editor) : Editor :=
  let p := e.place
  let e := { e with goal := max e.goal p.offset }
  if p.height ≤ p.row + 1 ∧ e.below ≠ [] then e.lineBelow.towardsGoal 0
  else e.towardsGoal (min ((p.start + p.length + hiddenBlanks : Nat) : Int) ((e.line.length : Int) - 1))

def shownLines (e : Editor) (height : Nat) : List Bytes :=
  let first := e.row + 1 - height
  ((e.lines.drop first).take height).map fun l => Bytes.ofChars (l.take e.width)

end Editor

end CircuitDesk
