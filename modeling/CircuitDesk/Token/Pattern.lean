import CircuitDesk.Token.Lexer

/-!
The classes of tokens as regular expressions. A pattern is tried at a place of a text from left to right, with the
first alternative and the longest repetition first; the ways through it are listed in this order, and its match is
the first of them.
-/
namespace CircuitDesk.Token

open Bytes (isDigit)

structure Cursor where
  before : Option UInt8
  rest : Bytes
deriving DecidableEq, Repr

def Cursor.atEdge (c : Cursor) : Bool := c.before.any isWordByte != c.rest.head?.any isWordByte

inductive Pattern where
  | empty
  | byte (p : UInt8 → Bool)
  | many (p : UInt8 → Bool)
  | seq (a b : Pattern)
  | alt (a b : Pattern)
  | edge

namespace Pattern

def manyWays (p : UInt8 → Bool) : Option UInt8 → Bytes → List Cursor
  | before, [] => [⟨before, []⟩]
  | before, b :: r =>
    if p b then manyWays p (some b) r ++ [⟨before, b :: r⟩] else [⟨before, b :: r⟩]

/-- Where a pattern that starts at a place can end, in the order in which the ends are tried. -/
def ways : Pattern → Cursor → List Cursor
  | empty, c => [c]
  | byte p, c =>
    match c.rest with
    | [] => []
    | b :: r => if p b then [⟨some b, r⟩] else []
  | many p, c => manyWays p c.before c.rest
  | seq a b, c => (a.ways c).flatMap b.ways
  | alt a b, c => a.ways c ++ b.ways c
  | edge, c => if c.atEdge then [c] else []

def length? (p : Pattern) (s : Bytes) : Option Nat :=
  (p.ways ⟨none, s⟩).head?.map fun c => s.length - c.rest.length

def oneOrMore (p : UInt8 → Bool) : Pattern := seq (byte p) (many p)

def maybe (a : Pattern) : Pattern := alt a empty

def oneOf (bs : Bytes) : Pattern := byte (· ∈ bs)

def literally (w : Bytes) : Pattern := w.foldr (fun b later => seq (byte (· = b)) later) empty

def anyOf : List Bytes → Pattern
  | [] => byte fun _ => false
  | w :: ws => alt (literally w) (anyOf ws)

/-- `[ \t\r]+` -/
def blanks : Pattern := oneOrMore isBlank

/-- `e-?\d\d\b` -/
def exponentPart : Pattern :=
  seq (byte (· = 101)) (seq (maybe (oneOf [45])) (seq (byte isDigit) (seq (byte isDigit) edge)))

/-- `\.\d+` -/
def fractionPart : Pattern := seq (byte (· = 46)) (oneOrMore isDigit)

/-- `-?\d+(?:\.\d+)?e-?\d\d\b` -/
def float : Pattern :=
  seq (maybe (oneOf [45])) (seq (oneOrMore isDigit) (seq (maybe fractionPart) exponentPart))

/-- `[-+]?\d+` -/
def integer : Pattern := seq (maybe (oneOf [45, 43])) (oneOrMore isDigit)

/-- `"[^"\n]*"`, where the characters between the quotes are read byte by byte. -/
def string : Pattern :=
  seq (byte (· = Bytes.quote)) (seq (many fun c => c ≠ Bytes.quote && c ≠ Bytes.newline) (byte (· = Bytes.quote)))

/-- `(?:QGate|QRot|Comment|controls=)\[` -/
def opener : Pattern := seq (anyOf ["QGate", "QRot", "Comment", "controls="]) (byte (· = 91))

/-- `(?:Subroutine|Shape|Controllable):` -/
def header : Pattern := seq (anyOf ["Subroutine", "Shape", "Controllable"]) (byte (· = 58))

/-- `x\d+\b` -/
def repetition : Pattern := seq (byte (· = 120)) (seq (oneOrMore isDigit) edge)

/-- `\b(?:Inputs|...|classically)\b` -/
def keyword : Pattern := seq edge (seq (anyOf keywords) edge)

/-- `[\[\]():,*]` -/
def punctuation : Pattern := oneOf [91, 93, 40, 41, 58, 44, 42]

end Pattern

open Pattern in
def patterns : List (Option Kind × Pattern) :=
  [(none, blanks), (some .newline, literally "\n"), (some .float, float), (some .integer, integer),
    (some .string, string), (some .opener, opener), (some .header, header), (some .repetition, repetition),
    (some .keyword, keyword), (some .arrow, literally "->"), (some .punctuation, punctuation)]

def firstMatch (s : Bytes) : Option (Option Kind × Nat) :=
  patterns.findSome? fun (kind, p) => (p.length? s).map (kind, ·)

end CircuitDesk.Token
