import CircuitDesk.Bytes

namespace CircuitDesk.Yaml

inductive Problem where
  | leadingByte
  | incompleteCharacter
  | trailingByte
  | overlongCharacter
  | noCharacter
  | controlCharacter
  | noToken
  | missingColon
  | misplacedItem
  | misplacedKey
  | misplacedValue
  | tooDeep
  | openQuote
  | markerInQuotes
  | unknownEscape
  | badHexadecimal
  | badEscapeCode
  | tabInPlain
  | tabInBlock
  | zeroIndentation
  | noLineEnd
  | noDirectiveName
  | badDirectiveName
  | unknownDirective
  | noVersion
  | longVersion
  | noVersionPoint
  | noTagBlank
  | noTagLineEnd
  | noTagMark
  | noTagText
  | noTagEnd
  | badTagEscape
  | badTagLeadingByte
  | badTagTrailingByte
  | badName
  | repeatedVersion
  | repeatedTagDirective
  | otherVersion
  | noDocumentStart
  | unknownTagHandle
  | noContent
  | noItem
  | noKey
  | unclosedList
  | unclosedMapping
  | unknownAnchor (name : Bytes)
  | selfReference (name : Bytes)
  | notMergeable
  | excessiveReferences
  | wrongTag (found text wanted : Bytes)
  | badBase64
deriving DecidableEq, Repr

def Problem.text : Problem → Bytes
  | leadingByte => "invalid leading UTF-8 octet"
  | incompleteCharacter => "incomplete UTF-8 octet sequence"
  | trailingByte => "invalid trailing UTF-8 octet"
  | overlongCharacter => "invalid length of a UTF-8 sequence"
  | noCharacter => "invalid Unicode character"
  | controlCharacter => "control characters are not allowed"
  | noToken => "found character that cannot start any token"
  | missingColon => "could not find expected ':'"
  | misplacedItem => "block sequence entries are not allowed in this context"
  | misplacedKey => "mapping keys are not allowed in this context"
  | misplacedValue => "mapping values are not allowed in this context"
  | tooDeep => "exceeded max depth of 10000"
  | openQuote => "found unexpected end of stream"
  | markerInQuotes => "found unexpected document indicator"
  | unknownEscape => "found unknown escape character"
  | badHexadecimal => "did not find expected hexdecimal number"
  | badEscapeCode => "found invalid Unicode character escape code"
  | tabInPlain => "found a tab character that violates indentation"
  | tabInBlock => "found a tab character where an indentation space is expected"
  | zeroIndentation => "found an indentation indicator equal to 0"
  | noLineEnd => "did not find expected comment or line break"
  | noDirectiveName => "could not find expected directive name"
  | badDirectiveName => "found unexpected non-alphabetical character"
  | unknownDirective => "found unknown directive name"
  | noVersion => "did not find expected version number"
  | longVersion => "found extremely long version number"
  | noVersionPoint => "did not find expected digit or '.' character"
  | noTagBlank => "did not find expected whitespace"
  | noTagLineEnd => "did not find expected whitespace or line break"
  | noTagMark => "did not find expected '!'"
  | noTagText => "did not find expected tag URI"
  | noTagEnd => "did not find the expected '>'"
  | badTagEscape => "did not find URI escaped octet"
  | badTagLeadingByte => "found an incorrect leading UTF-8 octet"
  | badTagTrailingByte => "found an incorrect trailing UTF-8 octet"
  | badName => "did not find expected alphabetic or numeric character"
  | repeatedVersion => "found duplicate %YAML directive"
  | repeatedTagDirective => "found duplicate %TAG directive"
  | otherVersion => "found incompatible YAML document"
  | noDocumentStart => "did not find expected <document start>"
  | unknownTagHandle => "found undefined tag handle"
  | noContent => "did not find expected node content"
  | noItem => "did not find expected '-' indicator"
  | noKey => "did not find expected key"
  | unclosedList => "did not find expected ',' or ']'"
  | unclosedMapping => "did not find expected ',' or '\x7d'"
  | unknownAnchor name => Bytes.ofString "unknown anchor '" ++ name ++ "' referenced"
  | selfReference name => Bytes.ofString "anchor '" ++ name ++ "' value contains itself"
  | notMergeable => "map merge requires map or sequence of maps as the value"
  | excessiveReferences => "document contains excessive aliasing"
  | wrongTag found text wanted =>
    Bytes.ofString "cannot decode " ++ found ++ " `" ++ text ++ "` as a " ++ wanted
  | badBase64 => "!!binary value contains invalid base64 data"

structure Fault where
  line : Nat
  problem : Problem
deriving DecidableEq, Repr

namespace Fault

/-- A problem at a character on a line, counted from zero. Messages count from one, but a problem on the first
line is told without it. -/
def onLine (line : Nat) (p : Problem) : Fault := ⟨if line = 0 then 0 else line + 1, p⟩

/-- A problem with a word that starts on a line. Messages name the line in front of it. -/
def atToken (line : Nat) (p : Problem) : Fault := ⟨line, p⟩

def ofProblem (p : Problem) : Fault := ⟨0, p⟩

def message (f : Fault) : Bytes :=
  let place : Bytes := if f.line = 0 then [] else Bytes.ofString "line " ++ Bytes.ofNat f.line ++ ": "
  Bytes.ofString "yaml: " ++ place ++ f.problem.text

end Fault

end CircuitDesk.Yaml
