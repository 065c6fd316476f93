import CircuitDesk.Bytes

namespace CircuitDesk.Yaml.Timestamp

def number? (most : Nat) : Bytes → Option (Nat × Bytes)
  | [] => none
  | a :: rest =>
    if !Bytes.isDigit a then none
    else
      let two := rest.head?.any Bytes.isDigit
      let n := Bytes.natValue (a :: if two then rest.take 1 else [])
      if n ≤ most then some (n, if two then rest.drop 1 else rest) else none

def numberAfter? (mark : UInt8) (most : Nat) : Bytes → Option (Nat × Bytes)
  | [] => none
  | b :: rest => if b = mark then number? most rest else none

def isLeapYear (year : Nat) : Bool := year % 4 = 0 && (year % 100 ≠ 0 || year % 400 = 0)

def daysInMonth (year month : Nat) : Nat :=
  if month = 2 then if isLeapYear year then 29 else 28
  else if month = 4 || month = 6 || month = 9 || month = 11 then 30
  else 31

def afterDate? (s : Bytes) : Option Bytes := do
  let year := s.takeWhile Bytes.isDigit
  if year.length ≠ 4 then none
  else
    let (month, rest) ← numberAfter? 45 12 (s.drop 4)
    let (day, rest) ← numberAfter? 45 31 rest
    if month = 0 || day = 0 || daysInMonth (Bytes.natValue year) month < day then none else some rest

def afterFraction : Bytes → Bytes
  | [] => []
  | p :: rest =>
    if (p = 46 || p = 44) && rest.head?.any Bytes.isDigit then rest.dropWhile Bytes.isDigit else p :: rest

def afterTime? (s : Bytes) : Option Bytes := do
  let (_, rest) ← number? 23 s
  let (_, rest) ← numberAfter? 58 59 rest
  let (_, rest) ← numberAfter? 58 59 rest
  return afterFraction rest

def isZone : Bytes → Bool
  | [90] => true
  | [sign, a, b, 58, c, d] =>
    (sign = 43 || sign = 45) && [a, b, c, d].all Bytes.isDigit && Bytes.natValue [a, b] ≤ 24 &&
      Bytes.natValue [c, d] ≤ 60
  | _ => false

/-- Whether a text is a time of day behind its date: one with a zone behind a letter, or one without behind
blanks. -/
def isTimePart : Bytes → Bool
  | [] => true
  | b :: rest =>
    if b = 84 || b = 116 then (afterTime? rest).any isZone
    else if b = 32 then afterTime? (rest.dropWhile (· = 32)) = some []
    else false

end Timestamp

def isTimestamp (s : Bytes) : Bool := (Timestamp.afterDate? s).any Timestamp.isTimePart

end CircuitDesk.Yaml
