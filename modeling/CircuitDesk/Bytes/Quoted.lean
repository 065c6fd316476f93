import CircuitDesk.Bytes.Chars
import CircuitDesk.Bytes.Printable

namespace CircuitDesk.Bytes

def escapeLetter? (c : Char) : Option Char :=
  if c = '\x07' then some 'a'
  else if c = '\x08' then some 'b'
  else if c = '\x0c' then some 'f'
  else if c = '\n' then some 'n'
  else if c = '\r' then some 'r'
  else if c = '\t' then some 't'
  else if c = '\x0b' then some 'v'
  else none

def escapeChar (c : Char) : Bytes :=
  if c = '"' || c = '\\' then ofChars ['\\', c]
  else if isPrintable c then ofChars [c]
  else match escapeLetter? c with
    | some l => ofChars ['\\', l]
    | none =>
      if c.toNat < 0x20 || c.toNat = 0x7F then ofString "\\x" ++ hex 2 c.toNat
      else if c.toNat < 0x10000 then ofString "\\u" ++ hex 4 c.toNat
      else ofString "\\U" ++ hex 8 c.toNat

def escapeGlyph : Glyph → Bytes
  | .char c => escapeChar c
  | .stray b => ofString "\\x" ++ hex 2 b.toNat

def quoted (s : Bytes) : Bytes := quote :: (glyphs s).flatMap escapeGlyph ++ [quote]

def fitsBackquotes : Glyph → Bool
  | .char c => c = '\t' || (0x20 ≤ c.toNat && c.toNat != 96 && c.toNat != 0x7F && c.toNat != 0xFEFF)
  | .stray _ => false

/-- A text between backquotes, or between double quotes if some character does not stand for itself there. -/
def backquoted (s : Bytes) : Bytes := if (glyphs s).all fitsBackquotes then [96] ++ s ++ [96] else quoted s

end CircuitDesk.Bytes
