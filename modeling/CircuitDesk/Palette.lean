import CircuitDesk.Display

/-!
Painting pieces of text. A plain palette leaves text alone. A styled one sets it as a terminal without
colours shows it: tabs become four blanks and lines are made equally wide. A coloured one also puts each
line between escape sequences.
-/
namespace CircuitDesk

inductive Palette where
  | plain
  | styled
  | coloured
deriving DecidableEq, Repr

inductive Paint where
  | gate
  | call
  | init
  | qbit
  | cbit
  | comment
  | dim
deriving DecidableEq, Repr

def Paint.codes : Paint → Bytes
  | gate => "1;38;2;115;218;202"
  | call => "1;38;2;187;154;247"
  | init => "38;2;158;206;105"
  | qbit => "38;2;125;207;255"
  | cbit => "38;2;224;175;104"
  | comment => "3;38;2;224;175;104"
  | dim => "38;2;86;95;137"

namespace Palette

def expandTabs (t : Bytes) : Bytes := t.flatMap fun b => if b = 9 then Bytes.spaces 4 else [b]

def dropReturns : Bytes → Bytes
  | 13 :: 10 :: rest => 10 :: dropReturns rest
  | b :: rest => b :: dropReturns rest
  | [] => []

def equalWidths (ls : List Bytes) : List Bytes :=
  let widest := (ls.map Display.width).foldl max 0
  ls.map fun l => l ++ Bytes.spaces (widest - Display.width l)

def layOut (decorate : Bytes → Bytes) (t : Bytes) : Bytes :=
  Bytes.unlines (equalWidths ((Bytes.lines (dropReturns (expandTabs t))).map decorate))

def colourLine (p : Paint) (line : Bytes) : Bytes :=
  Bytes.ofString "\x1b[" ++ p.codes ++ "m" ++ line ++ "\x1b[0m"

def paint (palette : Palette) (p : Paint) (t : Bytes) : Bytes :=
  match palette with
  | plain => t
  | styled => layOut id t
  | coloured => layOut (colourLine p) t

end Palette

end CircuitDesk
