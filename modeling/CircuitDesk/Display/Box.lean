import CircuitDesk.Display.Wrap
import CircuitDesk.Palette

namespace CircuitDesk.Display

def widest (ls : List Bytes) : Nat := (ls.map width).foldl max 0

def padTo (n : Nat) (l : Bytes) : Bytes := l ++ Bytes.spaces (n - width l)

structure Box where
  width : Nat
  height : Nat
  marginRows : Nat
  marginColumns : Nat
deriving DecidableEq, Repr

namespace Box

def inside (b : Box) (t : Bytes) : List Bytes :=
  let t := Palette.dropReturns (Palette.expandTabs t)
  let t := if b.width = 0 then t else wrap (b.width - 2 * b.marginColumns) t
  let margin := Bytes.spaces b.marginColumns
  let rows := List.replicate b.marginRows []
  let body := rows ++ (Bytes.lines t).map (fun l => margin ++ l ++ margin) ++ rows
  let full := body ++ List.replicate (b.height - body.length) []
  full.map (padTo (max b.width (widest full)))

def lines (b : Box) (t : Bytes) : List Bytes :=
  let rows := b.inside t
  let edge := Bytes.times (widest rows) "─"
  [Bytes.ofString "╭" ++ edge ++ "╮"] ++ rows.map (fun l => Bytes.ofString "│" ++ l ++ "│") ++
    [Bytes.ofString "╰" ++ edge ++ "╯"]

end Box

def beside (left right : List Bytes) : List Bytes :=
  let height := max left.length right.length
  (List.range height).map fun i =>
    padTo (widest left) ((left[i]?).getD []) ++ padTo (widest right) ((right[i]?).getD [])

def above (top bottom : List Bytes) : List Bytes :=
  let all := top ++ bottom
  all.map (padTo (widest all))

end CircuitDesk.Display
