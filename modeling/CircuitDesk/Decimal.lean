import CircuitDesk.Bytes

namespace CircuitDesk

structure Decimal where
  negative : Bool
  coefficient : Nat
  exponent : Int
deriving DecidableEq, Repr

namespace Decimal

def tenPower (n : Nat) : Nat := Nat.pow 10 n

open Bytes (isDigit natValue)

def signedValue (s : Bytes) : Int :=
  match s with
  | [] => 0
  | b :: ds => if b = 45 then -(natValue ds : Int) else if b = 43 then natValue ds else natValue (b :: ds)

/-- Reads an optional minus, digits, an optional point with digits, and a signed exponent behind an `e`; without one it
is zero. -/
def ofText (s : Bytes) : Decimal :=
  let negative := s.head? = some 45
  let unsigned := if negative then s.drop 1 else s
  let mantissa := unsigned.takeWhile (· ≠ 101)
  let exponent := (unsigned.dropWhile (· ≠ 101)).drop 1
  let whole := mantissa.takeWhile isDigit
  let part := (mantissa.dropWhile isDigit).drop 1
  ⟨negative, natValue (whole ++ part), signedValue exponent - part.length⟩

def quotient (d : Decimal) : Nat × Nat :=
  match d.exponent with
  | .ofNat k => (d.coefficient * tenPower k, 1)
  | .negSucc k => (d.coefficient, tenPower (k + 1))

end Decimal

end CircuitDesk
