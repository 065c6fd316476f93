import CircuitDesk.Binary64.Shortest
import CircuitDesk.Bytes.Chars

namespace CircuitDesk

inductive Json where
  | null
  | bool (b : Bool)
  | int (n : Int)
  | float (x : Binary64)
  | str (s : Bytes)
  | arr (items : List Json)
  | obj (fields : List (Bytes × Json))

namespace Json

def isEscaped (c : Char) : Bool :=
  c.toNat < 0x20 || c = '<' || c = '>' || c = '&' || c.toNat = 0x2028 || c.toNat = 0x2029

def escapeChar (c : Char) : Bytes :=
  if c = '"' || c = '\\' then Bytes.ofChars ['\\', c]
  else if c = '\n' then "\\n"
  else if c = '\r' then "\\r"
  else if c = '\t' then "\\t"
  else if c = '\x08' then "\\b"
  else if c = '\x0c' then "\\f"
  else if isEscaped c then Bytes.ofString "\\u" ++ Bytes.hex 4 c.toNat
  else Bytes.ofChars [c]

def escapeGlyph : Bytes.Glyph → Bytes
  | .char c => escapeChar c
  | .stray _ => "\\ufffd"

def stringText (s : Bytes) : Bytes :=
  Bytes.quote :: (Bytes.glyphs s).flatMap escapeGlyph ++ [Bytes.quote]

def positional (d : Binary64.Scientific) : Bytes :=
  if d.exponent < 0 then Bytes.ofString "0." ++ List.replicate (-d.exponent - 1).toNat 48 ++ d.digits
  else
    let whole := (d.exponent + 1).toNat
    if d.digits.length ≤ whole then d.digits ++ List.replicate (whole - d.digits.length) 48
    else d.digits.take whole ++ "." ++ d.digits.drop whole

def withExponent (d : Binary64.Scientific) : Bytes :=
  let mantissa := if d.digits.length = 1 then d.digits else d.digits.take 1 ++ "." ++ d.digits.drop 1
  if d.exponent < 0 then mantissa ++ "e-" ++ Bytes.ofNat d.exponent.natAbs
  else mantissa ++ "e+" ++ Bytes.zeroPadded 2 d.exponent.natAbs

def floatText (x : Binary64) : Bytes :=
  let d := x.scientific
  let sign := if d.negative then [45] else []
  sign ++ if -6 ≤ d.exponent ∧ d.exponent < 21 then positional d else withExponent d

def indentation (depth : Nat) : Bytes := Bytes.newline :: Bytes.spaces (2 * depth)

mutual

def text (depth : Nat) : Json → Bytes
  | null => "null"
  | bool b => if b then "true" else "false"
  | int n => Bytes.ofInt n
  | float x => floatText x
  | str s => stringText s
  | arr [] => "[]"
  | arr (j :: js) =>
    Bytes.ofString "[" ++ indentation (depth + 1) ++ text (depth + 1) j ++ itemsText (depth + 1) js ++
      indentation depth ++ "]"
  | obj [] => "\x7b\x7d"
  | obj ((k, j) :: fs) =>
    Bytes.ofString "\x7b" ++ indentation (depth + 1) ++ stringText k ++ ": " ++ text (depth + 1) j ++
      fieldsText (depth + 1) fs ++ indentation depth ++ "\x7d"

def itemsText (depth : Nat) : List Json → Bytes
  | [] => []
  | j :: js => Bytes.ofString "," ++ indentation depth ++ text depth j ++ itemsText depth js

def fieldsText (depth : Nat) : List (Bytes × Json) → Bytes
  | [] => []
  | (k, j) :: fs =>
    Bytes.ofString "," ++ indentation depth ++ stringText k ++ ": " ++ text depth j ++ fieldsText depth fs

end

def document (j : Json) : Bytes := j.text 0 ++ [Bytes.newline]

end Json

end CircuitDesk
