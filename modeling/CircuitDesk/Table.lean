import CircuitDesk.Display.Grid

namespace CircuitDesk.Table

def afterParameters? (digits : Nat) : Bytes → Option Bytes
  | [] => none
  | b :: rest =>
    if Bytes.isDigit b then if digits < 3 then afterParameters? (digits + 1) rest else none
    else if b = 59 && 0 < digits then afterParameters? 0 rest
    else if (b = 109 || b = 75 || b = 124) && 0 < digits then some rest
    else none

def afterColour? : Bytes → Option Bytes
  | 0x1B :: 0x5B :: b :: rest =>
    if b = 109 || b = 75 || b = 124 then some rest else afterParameters? 0 (b :: rest)
  | _ => none

/-- The text without its colours. The step count is the length of the text, and each step takes a byte of it
at least. -/
def withoutColours : (steps : Nat) → Bytes → Bytes
  | 0, _ => []
  | _, [] => []
  | steps + 1, b :: rest =>
    match afterColour? (b :: rest) with
    | some more => withoutColours steps more
    | none => b :: withoutColours steps rest

def textWidth (s : Bytes) : Nat := Display.gridWidth (withoutColours s.length s)

def wrapWidth : Nat := 30

def overlongCost : Nat := 100000

def lineCost (limit n : Nat) : Nat :=
  if n ≤ limit then (limit - n) * (limit - n) else (n - limit) * (n - limit) + overlongCost

structure Breaking where
  cost : Nat
  more : Nat
deriving DecidableEq, Repr

def lineWidth (width : Nat) : List Nat → Nat
  | [] => width
  | w :: ws => lineWidth (width + 1 + w) ws

/-- The cheapest first line that leaves words for later ones, of equals the shortest. The line at hand has
`width` columns and `more` words behind its first; the later words come with their best breakings. -/
def firstLine (limit width more : Nat) (best : Option Breaking) : List (Nat × Breaking) → Option Breaking
  | [] => best
  | (w, b) :: rest =>
    let cost := lineCost limit width + b.cost
    let best := match best with
      | some found => if cost < found.cost then some ⟨cost, more⟩ else some found
      | none => some ⟨cost, more⟩
    firstLine limit (width + 1 + w) (more + 1) best rest

/-- The best breakings of words of some widths, and of each end of them. Words that fit on one line cost
nothing. -/
def breakings (limit : Nat) : List Nat → List (Nat × Breaking)
  | [] => []
  | w :: ws =>
    let later := breakings limit ws
    let whole : Breaking := ⟨0, ws.length⟩
    let best := if lineWidth w ws ≤ limit then whole else (firstLine limit w 0 none later).getD whole
    (w, best) :: later

def brokenLines : List Bytes → List (Nat × Breaking) → List Bytes
  | [], _ => []
  | words, [] => [Bytes.join " " words]
  | w :: ws, (_, b) :: bs =>
    Bytes.join " " (w :: ws.take b.more) :: brokenLines (ws.drop b.more) (bs.drop b.more)
termination_by words => words.length
decreasing_by
  simp only [List.length_drop, List.length_cons]
  omega

/-- The lines of a text with the free room spread as evenly as possible. Words are never split, and the limit
gives way to the widest of them. -/
def wrap (limit : Nat) (s : Bytes) : List Bytes :=
  let words := Bytes.split 32 s
  let widths := words.map Display.gridWidth
  brokenLines words (breakings (widths.foldl max limit) widths)

/-- The width that a cell asks for and its lines. Wrapping makes one paragraph of it, and asks for the room
that the cell would take unwrapped, if that is not too much. -/
def cell (wrapping : Bool) (s : Bytes) : Nat × List Bytes :=
  let ls := Bytes.lines s
  let width := (ls.map textWidth).foldl max 0
  if wrapping then
    let limit := min wrapWidth width
    let ls := wrap limit (Bytes.join " " ls)
    ((ls.map textWidth).foldl max limit, ls)
  else (width, ls)

def padRight (n : Nat) (s : Bytes) : Bytes := s ++ Bytes.spaces (n - textWidth s)

def centre (n : Nat) (s : Bytes) : Bytes :=
  let gap := n - textWidth s
  Bytes.spaces (gap / 2) ++ s ++ Bytes.spaces (gap - gap / 2)

def barLine (cells : List Bytes) : Bytes :=
  Bytes.ofString "|" ++ cells.flatMap (fun c => Bytes.ofString " " ++ c ++ Bytes.ofString " |") ++ [Bytes.newline]

def dashLine (widths : List Nat) : Bytes :=
  Bytes.ofString "+" ++ widths.flatMap (fun n => Bytes.times (n + 2) "-" ++ Bytes.ofString "+") ++ [Bytes.newline]

def rowText (align : Nat → Bytes → Bytes) (widths : List Nat) (row : List (List Bytes)) : Bytes :=
  let height := (row.map List.length).foldl max 0
  (List.range height).flatMap fun i =>
    barLine ((widths.zip row).map fun (n, cell) => align n ((cell[i]?).getD []))

def text (wrapping : Bool) (heads : List Bytes) (rows : List (List Bytes)) : Bytes :=
  let cells := rows.map fun row => row.map (cell wrapping)
  let widths := heads.zipIdx.map fun (h, i) =>
    (cells.map fun row => ((row[i]?).map Prod.fst).getD 0).foldl max (textWidth h)
  dashLine widths ++ rowText centre widths (heads.map ([·])) ++ dashLine widths ++
    cells.flatMap (fun row => rowText padRight widths (row.map Prod.snd)) ++ dashLine widths

end CircuitDesk.Table
