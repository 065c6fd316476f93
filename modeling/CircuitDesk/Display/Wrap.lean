import CircuitDesk.Display

/-!
Wrapping text at a number of columns. Lines break at blanks, which are dropped there, and behind hyphens;
words that are longer than a line are split. Blanks that are held back count by their bytes.
-/
namespace CircuitDesk.Display

def isBreakingBlank (n : Nat) : Bool :=
  (9 ≤ n && n ≤ 13) || n = 32 || n = 0x85 || n = 0x1680 || (0x2000 ≤ n && n ≤ 0x200A) || n = 0x2028 ||
    n = 0x2029 || n = 0x202F || n = 0x205F || n = 0x3000

structure Run where
  text : Bytes
  width : Nat
deriving DecidableEq, Repr

namespace Run

def empty : Run := ⟨[], 0⟩

def add (r : Run) (t : Bytes) (w : Nat) : Run := ⟨r.text ++ t, r.width + w⟩

end Run

structure Wrapping where
  done : Bytes
  column : Nat
  blanks : Bytes
  word : Run
deriving DecidableEq, Repr

namespace Wrapping

def start : Wrapping := ⟨[], 0, [], .empty⟩

def writeBlanks (s : Wrapping) : Wrapping :=
  { s with done := s.done ++ s.blanks, column := s.column + s.blanks.length, blanks := [] }

def writeWord (s : Wrapping) : Wrapping :=
  if s.word.text = [] then s
  else
    let s := s.writeBlanks
    { s with done := s.done ++ s.word.text, column := s.column + s.word.width, word := .empty }

def breakLine (s : Wrapping) : Wrapping :=
  { s with done := s.done ++ [Bytes.newline], column := 0, blanks := [] }

def breakIf (s : Wrapping) (p : Bool) : Wrapping := if p then s.breakLine else s

def isTooLong (s : Wrapping) (limit : Nat) : Bool := limit < s.column + s.word.width + s.blanks.length

def addBlank (s : Wrapping) (c : Char) : Wrapping :=
  let s := s.writeWord
  { s with blanks := s.blanks ++ Bytes.ofChars [c] }

def addHyphen (s : Wrapping) (limit : Nat) : Wrapping :=
  let s := s.writeBlanks
  if limit ≤ s.column + s.word.width then { s with word := s.word.add [45] 1 }
  else
    let s := s.writeWord
    { s with done := s.done ++ [45], column := s.column + 1 }

def addBasic (s : Wrapping) (limit : Nat) (c : Char) : Wrapping :=
  let s := s.breakIf (s.column = limit)
  let s := { s with word := s.word.add (Bytes.ofChars [c]) 1 }
  let s := if s.word.width = limit then s.writeWord else s
  s.breakIf (s.isTooLong limit)

def addCluster (s : Wrapping) (limit : Nat) (t : Bytes) (w : Nat) : Wrapping :=
  let s := if limit < s.word.width + w then s.writeWord else s
  let s := { s with word := s.word.add t w }
  s.breakIf (s.isTooLong limit)

def closeLine (s : Wrapping) (limit : Nat) : Wrapping :=
  let s :=
    if s.word.width = 0 then
      if limit < s.column + s.blanks.length then { s with column := 0, blanks := [] }
      else { s with done := s.done ++ s.blanks, blanks := [] }
    else s
  s.writeWord

def addByte (s : Wrapping) (limit : Nat) (b : UInt8) : Wrapping :=
  let c := Char.ofNat b.toNat
  if b = Bytes.newline then (s.closeLine limit).breakLine
  else if isBreakingBlank b.toNat then s.addBlank c
  else if b = 45 then s.addHyphen limit
  else s.addBasic limit c

def add (limit : Nat) (state : EscapeState) (s : Wrapping) : Piece → Wrapping
  | .hidden b => if state.executes b then s.addByte limit b else { s with word := s.word.add [b] 0 }
  | .shown t w =>
    match t, Bytes.chars t with
    | b :: _, c :: _ =>
      if b < 0x80 then s.addByte limit b
      else if isBreakingBlank c.toNat then s.addBlank c
      else s.addCluster limit t w
    | _, _ => s

def addAll (limit : Nat) (state : EscapeState) (s : Wrapping) : Bytes → Wrapping
  | [] => s
  | b :: rest =>
    let p := (firstPiece state b rest).1
    addAll limit (state.afterPiece p) (s.add limit state p) (rest.drop (firstPiece state b rest).2)
termination_by t => t.length
decreasing_by
  simp only [List.length_drop, List.length_cons]
  omega

end Wrapping

/-- The text with no line wider than the limit; no limit is zero. -/
def wrap (limit : Nat) (t : Bytes) : Bytes :=
  if limit = 0 then t else ((Wrapping.addAll limit .ground .start t).closeLine limit).done

end CircuitDesk.Display
