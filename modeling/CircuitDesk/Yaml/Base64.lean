import CircuitDesk.Bytes

namespace CircuitDesk.Yaml.Base64

def letterValue? (b : UInt8) : Option Nat :=
  if 65 ≤ b && b ≤ 90 then some (b.toNat - 65)
  else if 97 ≤ b && b ≤ 122 then some (b.toNat - 71)
  else if Bytes.isDigit b then some (b.toNat + 4)
  else if b = 43 then some 62
  else if b = 47 then some 63
  else none

def groupBytes (count a b c d : Nat) : Bytes :=
  let n := ((a * 64 + b) * 64 + c) * 64 + d
  [(n / 65536).toUInt8, (n / 256 % 256).toUInt8, (n % 256).toUInt8].take count

def filler : UInt8 := 61

def decodeGroups : Bytes → Option Bytes
  | [] => some []
  | a :: b :: c :: d :: rest =>
    match letterValue? a, letterValue? b, letterValue? c, letterValue? d with
    | some a, some b, some c, some d => (decodeGroups rest).map (groupBytes 3 a b c d ++ ·)
    | some a, some b, some c, none => if d = filler && rest = [] then some (groupBytes 2 a b c 0) else none
    | some a, some b, none, none =>
      if c = filler && d = filler && rest = [] then some (groupBytes 1 a b 0 0) else none
    | _, _, _, _ => none
  | _ => none

def decode (s : Bytes) : Option Bytes := decodeGroups (s.filter fun b => b ≠ 10 && b ≠ 13)

end CircuitDesk.Yaml.Base64
