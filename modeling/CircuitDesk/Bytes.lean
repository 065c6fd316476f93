/-!
Text as bytes: literals, decimal numerals, lines and the byte order. Source files may hold bytes
that are no UTF-8, so every text of the library is a list of bytes and characters are a view of it
(`CircuitDesk.Bytes.Chars`).
-/
namespace CircuitDesk

/-- Text as it is stored; the bytes need not be well-formed UTF-8. -/
abbrev Bytes := List UInt8

namespace Bytes

def ofString (s : String) : Bytes := s.toList.flatMap String.utf8EncodeChar

instance : Coe String Bytes := ⟨ofString⟩

def newline : UInt8 := 10

def quote : UInt8 := 34

def isDigit (b : UInt8) : Bool := 48 ≤ b && b ≤ 57

def digit (n : Nat) : UInt8 := 48 + n.toUInt8

def digitValue (b : UInt8) : Nat := b.toNat - 48

def ofNat (n : Nat) : Bytes :=
  if n < 10 then [digit n] else ofNat (n / 10) ++ [digit (n % 10)]

def ofInt : Int → Bytes
  | .ofNat n => ofNat n
  | .negSucc n => 45 :: ofNat (n + 1)

def ofInt64 (n : Int64) : Bytes := ofInt n.toInt

def natValue (ds : Bytes) : Nat := ds.foldl (fun n d => 10 * n + digitValue d) 0

def zeroPadded (width n : Nat) : Bytes :=
  let ds := ofNat n
  List.replicate (width - ds.length) 48 ++ ds

def spaces (n : Nat) : Bytes := List.replicate n 32

def times (n : Nat) (s : Bytes) : Bytes := (List.replicate n s).flatten

def join (sep : Bytes) : List Bytes → Bytes
  | [] => []
  | [p] => p
  | p :: ps => p ++ sep ++ join sep ps

def split (sep : UInt8) : Bytes → List Bytes
  | [] => [[]]
  | b :: bs =>
    if b = sep then [] :: split sep bs
    else match split sep bs with
      | [] => [[b]]
      | p :: ps => (b :: p) :: ps

def lines (s : Bytes) : List Bytes := split newline s

def unlines (ls : List Bytes) : Bytes := join [newline] ls

def sorted (names : List Bytes) : List Bytes := names.mergeSort (fun a b => decide (a ≤ b))

def hexDigit (n : Nat) : UInt8 := if n < 10 then 48 + n.toUInt8 else 87 + n.toUInt8

def hex : Nat → Nat → Bytes
  | 0, _ => []
  | width + 1, n => hex width (n / 16) ++ [hexDigit (n % 16)]

end Bytes

def Integer64.bound : Nat := 9223372036854775808

end CircuitDesk
