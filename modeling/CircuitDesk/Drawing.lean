import CircuitDesk.Drawing.Cell
import CircuitDesk.Palette

namespace CircuitDesk

namespace Drawing

def cellWidth : Nat := 11

def nameWidth : Nat := 5

def minLabelWidth : Nat := 5

def cut (t : Bytes) (n : Nat) : Bytes :=
  if Bytes.charCount t ≤ n then t else Bytes.ofChars ((Bytes.chars t).take n)

def centred (t : Bytes) (n : Nat) : Bytes :=
  let count := Bytes.charCount t
  if n ≤ count then cut t n
  else
    let left := (n - count) / 2
    Bytes.spaces left ++ t ++ Bytes.spaces (n - count - left)

def dashes (n : Nat) : Bytes := Bytes.times n "─"

def dashed (n : Nat) (symbol : Bytes) : Bytes := dashes (n / 2) ++ symbol ++ dashes (n - n / 2 - 1)

def connector : Bytes := Bytes.spaces (cellWidth / 2) ++ "│" ++ Bytes.spaces (cellWidth - cellWidth / 2 - 1)

def gapLine (linked : Bool) : Bytes := if linked then connector else Bytes.spaces cellWidth

def controlSymbol (positive : Bool) : Bytes := if positive then "●" else "○"

def initText (value : Bool) : Bytes := if value then "|1>" else "|0>"

def Cell.lines (palette : Palette) (cell : Cell) : Bytes × Bytes × Bytes :=
  let top := gapLine cell.above
  let bottom := gapLine cell.below
  match cell.mark with
  | .wire => (top, dashes cellWidth, bottom)
  | .crossing => (top, dashed cellWidth "┼", bottom)
  | .control positive => (top, dashed cellWidth (palette.paint .gate (controlSymbol positive)), bottom)
  | .target symbol => (top, dashed cellWidth (palette.paint .gate symbol), bottom)
  | .init value =>
    (top, Bytes.ofString "  " ++ palette.paint .init (initText value) ++
      dashes (cellWidth - 2 - Bytes.charCount (initText value)), bottom)
  | .label text =>
    let shown := cut text (cellWidth - 2)
    (top, Bytes.ofString "─" ++ palette.paint .comment shown ++
      dashes (cellWidth - 1 - Bytes.charCount shown), bottom)
  | .box text isCall =>
    let paint := if isCall then Paint.call else .gate
    let lid := if cell.above then dashed nameWidth "┴" else dashes nameWidth
    let base := if cell.below then dashed nameWidth "┬" else dashes nameWidth
    let box := fun body : Bytes => palette.paint paint body
    let margin := (cellWidth - (nameWidth + 2)) / 2
    (Bytes.spaces margin ++ box (Bytes.ofString "┌" ++ lid ++ "┐") ++ Bytes.spaces margin,
      dashes margin ++ box (Bytes.ofString "┤" ++ centred text nameWidth ++ "├") ++ dashes margin,
      Bytes.spaces margin ++ box (Bytes.ofString "└" ++ base ++ "┘") ++ Bytes.spaces margin)

end Drawing

namespace Circuit

/-- The type of a wire: that of its first fitting declaration, inputs before outputs. Later declarations of
the same list win over earlier ones. -/
def wireType (c : Circuit) (w : Wire) : WireType :=
  match c.inputs.reverse.find? (·.wire = w) with
  | some d => d.type
  | none => ((c.outputs.reverse.find? (·.wire = w)).map Declaration.type).getD .qbit

def isClassical (c : Circuit) (w : Wire) : Bool := c.wireType w = .cbit

def typeLetter (c : Circuit) (w : Wire) : Bytes := if c.isClassical w then "C" else "Q"

def wireLabel (c : Circuit) (w : Wire) : Bytes := Bytes.ofInt64 w ++ ":" ++ c.typeLetter w

def labelWidth (c : Circuit) : Nat :=
  (c.wires.map fun w => (c.wireLabel w).length).foldl max Drawing.minLabelWidth

end Circuit

namespace Drawing

structure Options where
  palette : Palette
  /-- At most so many columns are drawn; zero or less draws all. -/
  maxColumns : Int
deriving DecidableEq, Repr

def Options.shownColumns (o : Options) (n : Nat) : Nat :=
  if 0 < o.maxColumns ∧ o.maxColumns < n then o.maxColumns.toNat else n

def rowLines (palette : Palette) (c : Circuit) (labelWidth : Nat) (w : Wire) (cells : List Cell) : List Bytes :=
  let indent := Bytes.spaces (labelWidth + 2)
  let label := c.wireLabel w
  let padded := label ++ Bytes.spaces (labelWidth - label.length)
  let paint := if c.isClassical w then Paint.cbit else .qbit
  let parts := cells.map (Cell.lines palette)
  [indent ++ parts.flatMap (·.1),
    palette.paint paint padded ++ dashes 2 ++ parts.flatMap (·.2.1),
    indent ++ parts.flatMap (·.2.2)]

def headerLine (palette : Palette) (c : Circuit) (columns : Nat) : Bytes :=
  Bytes.spaces (c.labelWidth + 2) ++
    (List.range columns).flatMap fun i => palette.paint .dim (centred (Bytes.ofNat i) cellWidth)

def hiddenLine (palette : Palette) (hidden : Nat) : Bytes :=
  palette.paint .dim (Bytes.ofString "  ▶ " ++ Bytes.ofNat hidden ++ " more columns")

def lines (o : Options) (c : Circuit) : List Bytes :=
  let ws := c.wires
  if ws = [] then [o.palette.paint .dim "(no wires)"]
  else
    let layout := c.layout
    let shown := o.shownColumns layout.length
    let columns := (layout.take shown).map fun gates =>
      column (rowAmong ws) ws.length (gates.filterMap (c.gates[·]?))
    let labelWidth := c.labelWidth
    let rows := ws.zipIdx.flatMap fun (w, r) =>
      rowLines o.palette c labelWidth w (columns.map fun cells => (cells[r]?).getD .blank)
    let hidden := layout.length - shown
    headerLine o.palette c shown :: rows ++ if hidden = 0 then [] else [hiddenLine o.palette hidden]

def text (o : Options) (c : Circuit) : Bytes := (lines o c).flatMap (· ++ [Bytes.newline])

end Drawing

end CircuitDesk
