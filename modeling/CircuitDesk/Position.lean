import CircuitDesk.Bytes.Chars

namespace CircuitDesk

/-- A place in a named text: the byte offset, and the line and column counted from one. Columns count
characters. -/
structure Position where
  file : Bytes
  offset : Nat
  line : Nat
  column : Nat
deriving DecidableEq, Repr

namespace Position

def start (file : Bytes) : Position := ⟨file, 0, 1, 1⟩

def unplaced : Position := ⟨[], 0, 0, 0⟩

/-- `file:line:column`, without the file where it has no name. -/
def text (p : Position) : Bytes :=
  let place := Bytes.ofNat p.line ++ ":" ++ Bytes.ofNat p.column
  if p.file = [] then place else p.file ++ ":" ++ place

def advance (p : Position) (s : Bytes) : Position where
  file := p.file
  offset := p.offset + s.length
  line := p.line + s.count Bytes.newline
  column :=
    if Bytes.newline ∈ s then
      1 + Bytes.charCount (s.reverse.takeWhile (· ≠ Bytes.newline)).reverse
    else p.column + Bytes.charCount s

end Position

end CircuitDesk
