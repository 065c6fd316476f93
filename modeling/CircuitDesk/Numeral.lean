import CircuitDesk.Bytes

/-!
Whole numbers as they are typed: an optional sign, a base sign (`0x`, `0o`, `0b`, or a leading zero for octal),
and digits with underscores between them. Digits are read from left to right, and the first thing that is wrong
with a number counts: a number that is too large is not looked at any further.
-/
namespace CircuitDesk.Numeral

inductive Cause where
  | invalid
  | outOfRange
deriving DecidableEq, Repr

def Cause.text : Cause → Bytes
  | invalid => "invalid syntax"
  | outOfRange => "value out of range"

def underscore : UInt8 := 95

def digitValue? (b : UInt8) : Option Nat :=
  if Bytes.isDigit b then some (b.toNat - 48)
  else if 97 ≤ b && b ≤ 122 then some (b.toNat - 87)
  else if 65 ≤ b && b ≤ 90 then some (b.toNat - 55)
  else none

def unsignedBound : Nat := 2 * Integer64.bound

def readDigits (base n : Nat) : Bytes → Except Cause Nat
  | [] => .ok n
  | b :: rest =>
    if b = underscore then readDigits base n rest
    else match digitValue? b with
      | none => .error .invalid
      | some d =>
        if base ≤ d then .error .invalid
        else if base * n + d < unsignedBound then readDigits base (base * n + d) rest
        else .error .outOfRange

def letterBase? (b : UInt8) : Option Nat :=
  if b = 120 || b = 88 then some 16
  else if b = 111 || b = 79 then some 8
  else if b = 98 || b = 66 then some 2
  else none

def splitBase : Bytes → Nat × Bytes
  | 48 :: b :: c :: rest =>
    match letterBase? b with
    | some base => (base, c :: rest)
    | none => (8, b :: c :: rest)
  | 48 :: rest => (8, rest)
  | s => (10, s)

def underscoresFit (digit : Bool) : Bytes → Bool
  | [] => true
  | b :: rest =>
    if b = underscore then digit && rest ≠ [] && underscoresFit false rest else underscoresFit true rest

def hasFittingUnderscores (s : Bytes) : Bool :=
  match s with
  | 48 :: b :: rest => if (letterBase? b).isSome then underscoresFit true rest else underscoresFit false s
  | _ => underscoresFit false s

def readUnsigned (s : Bytes) : Except Cause Nat :=
  if s = [] then .error .invalid
  else do
    let n ← readDigits (splitBase s).1 0 (splitBase s).2
    if hasFittingUnderscores s then return n else .error .invalid

def ofUnsigned (negative : Bool) (n : Nat) : Except Cause Int64 :=
  if negative then if n ≤ Integer64.bound then .ok (Int64.ofInt (-n)) else .error .outOfRange
  else if n < Integer64.bound then .ok (Int64.ofNat n)
  else .error .outOfRange

def isSign (b : UInt8) : Bool := b = 45 || b = 43

def splitSign : Bytes → Bool × Bytes
  | [] => (false, [])
  | b :: rest => if isSign b then (b = 45, rest) else (false, b :: rest)

def readSigned (s : Bytes) : Except Cause Int64 := do
  ofUnsigned (splitSign s).1 (← readUnsigned (splitSign s).2)

def readBinary (s : Bytes) : Except Cause Int64 :=
  if (splitSign s).2 = [] then .error .invalid
  else do ofUnsigned (splitSign s).1 (← readDigits 2 0 (splitSign s).2)

end CircuitDesk.Numeral
