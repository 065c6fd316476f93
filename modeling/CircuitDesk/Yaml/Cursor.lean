import CircuitDesk.Bytes.Chars
import CircuitDesk.Yaml.Fault

namespace CircuitDesk.Yaml

def isBlank (c : Char) : Bool := c = ' ' || c = '\t'

def isBreak (c : Char) : Bool :=
  c = '\n' || c = '\r' || c.toNat = 0x85 || c.toNat = 0x2028 || c.toNat = 0x2029

def isNameChar (c : Char) : Bool := c.isAlphanum || c = '_' || c = '-'

def endsLine : Option Char → Bool
  | none => true
  | some c => isBreak c

def endsWord : Option Char → Bool
  | none => true
  | some c => isBlank c || isBreak c

def breakText (c : Char) : List Char := if c.toNat = 0x2028 || c.toNat = 0x2029 then [c] else ['\n']

structure Cursor where
  rest : List Char
  index : Nat
  line : Nat
  column : Nat
deriving DecidableEq, Repr

namespace Cursor

def start (cs : List Char) : Cursor := ⟨cs, 0, 0, 0⟩

def peek? (c : Cursor) : Option Char := c.rest.head?

def next? (c : Cursor) : Option Char := c.rest[1]?

def skip (c : Cursor) (n : Nat) : Cursor := ⟨c.rest.drop n, c.index + n, c.line, c.column + n⟩

def skipWhile (c : Cursor) (p : Char → Bool) : Cursor := c.skip (c.rest.takeWhile p).length

def skipBreak (c : Cursor) : Cursor :=
  match c.rest with
  | '\r' :: '\n' :: rest => ⟨rest, c.index + 2, c.line + 1, 0⟩
  | b :: rest => if isBreak b then ⟨rest, c.index + 1, c.line + 1, 0⟩ else c
  | [] => c

def skipBlanks (c : Cursor) : Cursor := c.skipWhile isBlank

def skipLine (c : Cursor) : Cursor := c.skipWhile fun ch => !isBreak ch

def endLine (c : Cursor) : Except Fault Cursor :=
  let c := c.skipBlanks
  let c := if c.peek? = some '#' then c.skipLine else c
  if endsLine c.peek? then .ok c.skipBreak else .error (.onLine c.line .noLineEnd)

def hasMarker (c : Cursor) (mark : Char) : Bool :=
  c.column = 0 && c.rest.take 3 = [mark, mark, mark] && endsWord c.rest[3]?

def atMarker (c : Cursor) : Bool := c.hasMarker '-' || c.hasMarker '.'

def fail {α : Type} (c : Cursor) (p : Problem) : Except Fault α := .error (.onLine c.line p)

end Cursor

def isAllowed (c : Char) : Bool :=
  let n := c.toNat
  n = 0x09 || n = 0x0A || n = 0x0D || (0x20 ≤ n && n ≤ 0x7E) || n = 0x85 || (0xA0 ≤ n && n ≤ 0xFFFD) ||
    0x10000 ≤ n

def trailingBytes? (b : UInt8) : Option Nat :=
  if b < 0x80 then some 0
  else if 0xC0 ≤ b && b < 0xE0 then some 1
  else if 0xE0 ≤ b && b < 0xF0 then some 2
  else if 0xF0 ≤ b && b < 0xF8 then some 3
  else none

def byteProblem (b : UInt8) (rest : Bytes) : Problem :=
  match trailingBytes? b with
  | none => .leadingByte
  | some n =>
    if rest.length < n then .incompleteCharacter
    else if !(rest.take n).all Bytes.isContinuation then .trailingByte
    else if b = 0xED || 0xF4 ≤ b then .noCharacter
    else .overlongCharacter

structure Readable where
  chars : List Char
  fault : Option Fault
deriving Repr

/-- The number of bytes that are read at once. A character that does not end in a block starts the next one. -/
def blockSize : Nat := 512

def isSplit (room : Nat) (b : UInt8) (rest : Bytes) : Bool :=
  room = 0 || (trailingBytes? b).any fun n => room ≤ n || rest.length < n

def readableBefore (room : Nat) (done block : List Char) (b : UInt8) (rest : Bytes) (p : Problem) : Readable :=
  ⟨(if isSplit room b rest then block ++ done else done).reverse, some (.ofProblem p)⟩

/-- The characters of a text. `room` is how many bytes of the block are left, `block` are its characters so far
and `done` those of the blocks in front of it, both with the last one first. A fault takes its block with it. -/
def decode (room : Nat) (done block : List Char) : Bytes → Readable
  | [] => ⟨(block ++ done).reverse, none⟩
  | b :: rest =>
    match (Bytes.firstGlyph b rest).1 with
    | .stray _ => readableBefore room done block b rest (byteProblem b rest)
    | .char c =>
      let more := (Bytes.firstGlyph b rest).2
      if !isAllowed c then readableBefore room done block b rest .controlCharacter
      else if room ≤ more then decode (blockSize - (more + 1)) (block ++ done) [c] (rest.drop more)
      else decode (room - (more + 1)) done (c :: block) (rest.drop more)
termination_by s => s.length
decreasing_by
  all_goals
    simp only [List.length_drop, List.length_cons]
    omega

def orderMark : Bytes := [0xEF, 0xBB, 0xBF]

/-- The characters of a text behind its byte order mark, which is a part of the first block. -/
def characters (s : Bytes) : Readable :=
  if orderMark.isPrefixOf s then decode (blockSize - orderMark.length) [] [] (s.drop orderMark.length)
  else decode blockSize [] [] s

end CircuitDesk.Yaml
