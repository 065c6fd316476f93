import CircuitDesk.Binary64

/-!
The shortest decimal that reads back. For each number of digits the two neighbours of the value on that
decimal grid are tried; the first grid with a neighbour that reads back as the same number wins. The exact
decimal expansion, which every binary fraction has, always reads back and closes the search.
-/
namespace CircuitDesk.Binary64

def digitCount (n : Nat) : Nat := if n = 0 then 0 else (Bytes.ofNat n).length

def decimalPlace (num den : Nat) : Int :=
  if den ≤ num then (digitCount (num / den) : Int)
  else 1 - (digitCount ((den + num - 1) / num - 1) : Int)

def inUnits (num den : Nat) (unit : Int) : Nat × Nat :=
  match unit with
  | .ofNat k => (num, den * Decimal.tenPower k)
  | .negSucc k => (num * Decimal.tenPower (k + 1), den)

def readsBack (magnitude coefficient : Nat) (unit : Int) : Bool :=
  let d : Decimal := ⟨false, coefficient, unit⟩
  nearest d.quotient.1 d.quotient.2 = magnitude

/-- The neighbour with `digits` digits that reads back. Of two the nearer is taken, and of two that are
equally near the even one. -/
def withDigits? (magnitude digits : Nat) : Option (Nat × Int) :=
  let (num, den) := fraction magnitude
  let unit := decimalPlace num den - digits
  let (n, d) := inUnits num den unit
  let low := n / d
  let preferred := roundHalfEven n d
  let other := if preferred = low then low + 1 else low
  if readsBack magnitude preferred unit then some (preferred, unit)
  else if readsBack magnitude other unit then some (other, unit)
  else none

def exactDecimal (magnitude : Nat) : Nat × Int :=
  ((fraction magnitude).1 * Nat.pow 5 1074, -1074)

def maxDigits : Nat := 17

def shortest (magnitude : Nat) : Nat × Int :=
  if magnitude = 0 then (0, 0)
  else ((List.range maxDigits).findSome? fun k => withDigits? magnitude (k + 1)).getD
    (exactDecimal magnitude)

structure Scientific where
  negative : Bool
  digits : Bytes
  exponent : Int
deriving DecidableEq, Repr

namespace Scientific

def mantissa (s : Scientific) : Bytes :=
  (if s.negative then [45] else []) ++
    match s.digits with
    | d :: e :: ds => d :: 46 :: e :: ds
    | ds => ds

def text (s : Scientific) : Bytes :=
  s.mantissa ++ 101 :: (if s.exponent < 0 then 45 else 43) :: Bytes.zeroPadded 2 s.exponent.natAbs

end Scientific

def stripZeros (ds : Bytes) : Bytes := (ds.reverse.dropWhile (· = 48)).reverse

def scientific (x : Binary64) : Scientific :=
  let (c, e) := shortest x.magnitude
  if c = 0 then ⟨x.negative, [48], 0⟩
  else
    let ds := Bytes.ofNat c
    ⟨x.negative, stripZeros ds, e + (ds.length - 1 : Nat)⟩

def specialText (x : Binary64) : Bytes :=
  if x.isNaN then "NaN" else if x.negative then "-Inf" else "+Inf"

def exponentForm (x : Binary64) : Bytes := if x.isFinite then x.scientific.text else x.specialText

end CircuitDesk.Binary64
