import CircuitDesk.Bytes

/-!
The characters of a text. Bytes are read as UTF-8; a byte that starts no well-formed sequence
stands alone and shows as the replacement character.
-/
namespace CircuitDesk.Bytes

inductive Glyph where
  | char (c : Char)
  | stray (b : UInt8)
deriving DecidableEq, Repr

def replacement : Char := Char.ofNat 0xFFFD

def Glyph.toChar : Glyph → Char
  | .char c => c
  | .stray _ => replacement

def isContinuation (b : UInt8) : Bool := 0x80 ≤ b && b ≤ 0xBF

/-- Second bytes that may follow a leading byte; the narrow ranges keep out overlong forms, surrogates
and numbers beyond the last code point. -/
def secondOk (lead b : UInt8) : Bool :=
  if lead = 0xE0 then 0xA0 ≤ b && b ≤ 0xBF
  else if lead = 0xED then 0x80 ≤ b && b ≤ 0x9F
  else if lead = 0xF0 then 0x90 ≤ b && b ≤ 0xBF
  else if lead = 0xF4 then 0x80 ≤ b && b ≤ 0x8F
  else isContinuation b

def low6 (b : UInt8) : Nat := b.toNat % 64

/-- The glyph at the start of `b :: rest` and how many bytes of `rest` it takes. -/
def firstGlyph (b : UInt8) (rest : Bytes) : Glyph × Nat :=
  if b < 0x80 then (.char (Char.ofNat b.toNat), 0)
  else if 0xC2 ≤ b && b ≤ 0xDF then
    match rest with
    | b₁ :: _ =>
      if isContinuation b₁ then (.char (Char.ofNat ((b.toNat - 0xC0) * 64 + low6 b₁)), 1)
      else (.stray b, 0)
    | _ => (.stray b, 0)
  else if 0xE0 ≤ b && b ≤ 0xEF then
    match rest with
    | b₁ :: b₂ :: _ =>
      if secondOk b b₁ && isContinuation b₂ then
        (.char (Char.ofNat (((b.toNat - 0xE0) * 64 + low6 b₁) * 64 + low6 b₂)), 2)
      else (.stray b, 0)
    | _ => (.stray b, 0)
  else if 0xF0 ≤ b && b ≤ 0xF4 then
    match rest with
    | b₁ :: b₂ :: b₃ :: _ =>
      if secondOk b b₁ && isContinuation b₂ && isContinuation b₃ then
        (.char (Char.ofNat ((((b.toNat - 0xF0) * 64 + low6 b₁) * 64 + low6 b₂) * 64 + low6 b₃)), 3)
      else (.stray b, 0)
    | _ => (.stray b, 0)
  else (.stray b, 0)

def glyphs : Bytes → List Glyph
  | [] => []
  | b :: rest => (firstGlyph b rest).1 :: glyphs (rest.drop (firstGlyph b rest).2)
termination_by s => s.length
decreasing_by
  simp only [List.length_drop, List.length_cons]
  omega

def chars (s : Bytes) : List Char := (glyphs s).map Glyph.toChar

def charCount (s : Bytes) : Nat := (glyphs s).length

def ofChars (cs : List Char) : Bytes := cs.flatMap String.utf8EncodeChar

def isUtf8 (s : Bytes) : Bool := (glyphs s).all fun
  | .char _ => true
  | .stray _ => false

end CircuitDesk.Bytes
