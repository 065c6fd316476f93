import CircuitDesk.Token

/-!
Lexing in two steps. `tiles` cuts a text into lexemes: at each point the first class of the table that
fits takes its lexeme, and what is left when none fits is the remainder. `place` then walks over the
lexemes, drops the blank ones and gives the others their positions.
-/
namespace CircuitDesk.Token

open Bytes (isDigit newline quote)

def isBlank (b : UInt8) : Bool := b = 32 || b = 9 || b = 13

def isWordByte (b : UInt8) : Bool :=
  isDigit b || (65 ≤ b && b ≤ 90) || (97 ≤ b && b ≤ 122) || b = 95

def wordEnds (s : Bytes) : Bool :=
  match s with
  | [] => true
  | b :: _ => !isWordByte b

def digitRun (s : Bytes) : Nat := (s.takeWhile isDigit).length

def optional (bs : Bytes) (s : Bytes) : Nat :=
  match s with
  | [] => 0
  | b :: _ => if b ∈ bs then 1 else 0

def literal (words : List Bytes) (s : Bytes) : Option Nat :=
  (words.find? (·.isPrefixOf s)).map List.length

def blankRun (s : Bytes) : Option Nat :=
  let n := (s.takeWhile isBlank).length
  if n = 0 then none else some n

def fraction (s : Bytes) : Nat :=
  match s with
  | [] => 0
  | b :: r => if b = 46 ∧ digitRun r ≠ 0 then 1 + digitRun r else 0

def exponent (s : Bytes) : Option Nat :=
  match s with
  | [] => none
  | b :: r =>
    let sign := optional [45] r
    if b = 101 ∧ digitRun (r.drop sign) = 2 ∧ wordEnds (r.drop (sign + 2)) then some (1 + sign + 2)
    else none

def floatLexeme (s : Bytes) : Option Nat :=
  let sign := optional [45] s
  let whole := digitRun (s.drop sign)
  let part := fraction (s.drop (sign + whole))
  if whole = 0 then none
  else (exponent (s.drop (sign + whole + part))).map (sign + whole + part + ·)

def integerLexeme (s : Bytes) : Option Nat :=
  let sign := optional [45, 43] s
  let whole := digitRun (s.drop sign)
  if whole = 0 then none else some (sign + whole)

def stringLexeme (s : Bytes) : Option Nat :=
  match s with
  | [] => none
  | b :: r =>
    let inner := r.takeWhile (fun c => c ≠ quote && c ≠ newline)
    if b = quote ∧ (r.drop inner.length).head? = some quote then some (inner.length + 2) else none

def repetitionLexeme (s : Bytes) : Option Nat :=
  match s with
  | [] => none
  | b :: r =>
    if b = 120 ∧ digitRun r ≠ 0 ∧ wordEnds (r.drop (digitRun r)) then some (1 + digitRun r) else none

def keywords : List Bytes :=
  ["Inputs", "Outputs", "Subroutine", "QInit0", "QInit1", "nocontrol", "with", "shape", "Qbit",
    "Cbit", "yes", "no", "classically"]

def keywordLexeme (s : Bytes) : Option Nat :=
  let word := s.takeWhile isWordByte
  if keywords.any (· = word) then some word.length else none

def lexemes : List (Option Kind × (Bytes → Option Nat)) :=
  [(none, blankRun),
    (some .newline, literal ["\n"]),
    (some .float, floatLexeme),
    (some .integer, integerLexeme),
    (some .string, stringLexeme),
    (some .opener, literal ["QGate[", "QRot[", "Comment[", "controls=["]),
    (some .header, literal ["Subroutine:", "Shape:", "Controllable:"]),
    (some .repetition, repetitionLexeme),
    (some .keyword, keywordLexeme),
    (some .arrow, literal ["->"]),
    (some .punctuation, literal ["[", "]", "(", ")", ":", ",", "*"])]

def firstLexeme (s : Bytes) : Option (Option Kind × Nat) :=
  lexemes.findSome? fun (kind, len) => (len s).map (kind, ·)

structure Tile where
  kind : Option Kind
  text : Bytes
deriving DecidableEq, Repr

def tiles : Bytes → List Tile × Bytes
  | [] => ([], [])
  | b :: rest =>
    match firstLexeme (b :: rest) with
    | none => ([], b :: rest)
    | some (kind, n) =>
      let later := tiles (rest.drop (n - 1))
      (⟨kind, (b :: rest).take n⟩ :: later.1, later.2)
termination_by s => s.length
decreasing_by
  simp only [List.length_drop, List.length_cons]
  omega

def place (p : Position) : List Tile → List Token × Position
  | [] => ([], p)
  | t :: ts =>
    let later := place (p.advance t.text) ts
    match t.kind with
    | none => later
    | some k => (⟨k, t.text, p⟩ :: later.1, later.2)

structure LexFault where
  pos : Position
  rest : Bytes
deriving DecidableEq, Repr

def LexFault.sampleSize : Nat := 16

def LexFault.detail (e : LexFault) : Bytes :=
  let cs := Bytes.chars e.rest
  let sample := if cs.length ≤ sampleSize then cs else cs.take sampleSize ++ ['.', '.', '.']
  Bytes.ofString "invalid input text " ++ Bytes.quoted (Bytes.ofChars sample)

def LexFault.message (e : LexFault) : Bytes := e.pos.text ++ ": lex error: " ++ e.detail

def lex (file text : Bytes) : Except LexFault (List Token) :=
  let (pieces, rest) := tiles text
  let (tokens, stop) := place (.start file) pieces
  if rest = [] then .ok (tokens ++ [⟨.endOfInput, [], stop⟩]) else .error ⟨stop, rest⟩

end CircuitDesk.Token
