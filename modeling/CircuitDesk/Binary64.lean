import CircuitDesk.Decimal

/-!
Floating-point numbers of the IEEE 754 format with 64 bits. A magnitude is its bits read as a number:
the exponent field times `2 ^ 52` plus the fraction field, so that greater bits mean a greater number and
a carry out of the fraction lands in the exponent by itself.
-/
namespace CircuitDesk

structure Binary64 where
  bits : UInt64
deriving DecidableEq, Repr

namespace Binary64

def infinityBits : Nat := 0x7FF0000000000000

def signBit : Nat := 0x8000000000000000

def fractionBound : Nat := 0x10000000000000

def twoPower (n : Nat) : Nat := Nat.pow 2 n

/-- The value of the last place of the smallest numbers is one over this. -/
def denominator : Nat := twoPower 1074

def negative (x : Binary64) : Bool := signBit ≤ x.bits.toNat

def magnitude (x : Binary64) : Nat := x.bits.toNat % signBit

def isFinite (x : Binary64) : Bool := x.magnitude < infinityBits

def isNaN (x : Binary64) : Bool := infinityBits < x.magnitude

def ofMagnitude (negative : Bool) (m : Nat) : Binary64 :=
  ⟨((if negative then signBit else 0) + m).toUInt64⟩

/-- Finite magnitudes are `significand · 2 ^ scale / 2 ^ 1074`. -/
def scale (magnitude : Nat) : Nat := magnitude / fractionBound - 1

def significand (magnitude : Nat) : Nat :=
  if magnitude < fractionBound then magnitude else fractionBound + magnitude % fractionBound

def fraction (magnitude : Nat) : Nat × Nat :=
  (significand magnitude * twoPower (scale magnitude), denominator)

def bitLength (n : Nat) : Nat := if n = 0 then 0 else n.log2 + 1

def roundHalfEven (num den : Nat) : Nat :=
  let q := num / den
  let r := num % den
  if 2 * r < den then q
  else if den < 2 * r then q + 1
  else if q % 2 = 0 then q else q + 1

/-- The magnitude nearest to `num / den`, a half going to the even neighbour. The scale is the least
that leaves no more than 53 binary digits. -/
def nearest (num den : Nat) : Nat :=
  let scaled := num * denominator
  let s := bitLength (scaled / (den * (2 * fractionBound)))
  s * fractionBound + roundHalfEven scaled (den * twoPower s)

/-- A number that is not zero is at least ten to this power, since `10 ^ 3` is less than `2 ^ 10`. -/
def powerBelow (d : Decimal) : Int := d.exponent + 3 * ((bitLength d.coefficient - 1) / 10 : Nat)

/-- A number is less than ten to this power, since `2 ^ 13` is less than `10 ^ 4`. -/
def powerAbove (d : Decimal) : Int := d.exponent + 4 * (bitLength d.coefficient / 13 + 1 : Nat)

def greatestPower : Int := 309

/-- Numbers below ten to this power are nearer to zero than to any other number. -/
def leastPower : Int := -324

/-- The nearest number to a decimal, or nothing beyond the range of finite numbers. Numbers far out of range
are told by their powers of ten alone. -/
def ofDecimal? (d : Decimal) : Option Binary64 :=
  if d.coefficient = 0 ∨ powerAbove d ≤ leastPower then some (ofMagnitude d.negative 0)
  else if greatestPower ≤ powerBelow d then none
  else
    let m := nearest d.quotient.1 d.quotient.2
    if m < infinityBits then some (ofMagnitude d.negative m) else none

end Binary64

end CircuitDesk
