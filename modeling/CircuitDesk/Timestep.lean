import CircuitDesk.Binary64.Shortest
import CircuitDesk.Numeral

namespace CircuitDesk.Timestep

def placePoint (digits : Bytes) (place : Int) : Bytes :=
  if (digits.length : Int) ≤ place then digits ++ List.replicate (place - digits.length).toNat 48
  else if place ≤ 0 then Bytes.ofString "0." ++ List.replicate (-place).toNat 48 ++ digits
  else digits.take place.toNat ++ "." ++ digits.drop place.toNat

/-- A mantissa, which has one digit in front of its point, with the point moved `k` places to the right. -/
def shiftPoint (mantissa : Bytes) (k : Int) : Bytes :=
  let sign := if mantissa.head? = some 45 then [45] else []
  sign ++ placePoint ((mantissa.drop sign.length).erase 46) (1 + k)

def exponentLimit : Int := 99

def exponentText (e : Int) : Bytes :=
  if e < 0 then Bytes.ofString "e-" ++ Bytes.zeroPadded 2 e.natAbs
  else Bytes.ofString "e" ++ Bytes.zeroPadded 2 e.natAbs

def exponent? (s : Bytes) : Option Int :=
  let (negative, digits) := Numeral.splitSign s
  if digits ≠ [] ∧ digits.all Bytes.isDigit then
    (Numeral.ofUnsigned negative (Bytes.natValue digits)).toOption.map Int64.toInt
  else none

/-- A number in exponent form as it stands in sources. An exponent that needs three digits stays at the limit and the
rest of it goes into the mantissa, so `1e+100` is written `10e99`. What has no exponent stays as it is. -/
def ofExponentForm (s : Bytes) : Bytes :=
  let mantissa := s.takeWhile (· ≠ 101)
  match exponent? ((s.dropWhile (· ≠ 101)).drop 1) with
  | none => s
  | some e =>
    if exponentLimit < e then shiftPoint mantissa (e - exponentLimit) ++ exponentText exponentLimit
    else if e < -exponentLimit then shiftPoint mantissa (e + exponentLimit) ++ exponentText (-exponentLimit)
    else mantissa ++ exponentText e

def text (x : Binary64) : Bytes := ofExponentForm x.exponentForm

end CircuitDesk.Timestep
