import CircuitDesk.Yaml.Token.Tag

/-!
The tokens of a YAML text in order. A mapping without brackets shows itself only at the colon behind its first
key, so tokens wait in a queue as long as the first of them may turn out to be a key; the colon then puts the
marks of the mapping and of the key in front of it. Indentation is turned into starts and ends of blocks.
-/
namespace CircuitDesk.Yaml

structure PossibleKey where
  possible : Bool
  required : Bool
  number : Nat
  index : Nat
  line : Nat
  column : Nat
deriving DecidableEq, Repr

structure Scanner where
  cursor : Cursor
  queue : List Token
  given : Nat
  /-- The column of the innermost block; outside of all blocks it is -1. -/
  indent : Int
  outer : List Int
  keyAllowed : Bool
  depth : Nat
  /-- The latest possible key inside each bracket, the innermost first; the last one is outside of brackets. -/
  keys : List PossibleKey
  waiting : List (Nat × Nat)
  marked : Bool
  /-- What is wrong behind the last character, if the text cannot be read to its end. -/
  unreadable : Option Fault
deriving Repr

namespace Scanner

def noKey : PossibleKey := ⟨false, false, 0, 0, 0, 0⟩

def orderMarkChar : Char := Char.ofNat 0xFEFF

def start (r : Readable) : Scanner :=
  ⟨.start r.chars, [⟨0, .streamStart⟩], 0, -1, [], true, 0, [noKey], [], r.chars.head? = some orderMarkChar,
    r.fault⟩

def inFlow (s : Scanner) : Bool := 0 < s.depth

def nextNumber (s : Scanner) : Nat := s.given + s.queue.length

def fail {α : Type} (s : Scanner) (p : Problem) : Except Fault α := s.cursor.fail p

def push (s : Scanner) (line : Nat) (kind : TokenKind) : Scanner :=
  { s with queue := s.queue ++ [⟨line, kind⟩] }

/-- Puts a token in front of token `number`, or last if that one was given out. -/
def insertAt (s : Scanner) (number line : Nat) (kind : TokenKind) : Scanner :=
  if number < s.given then s.push line kind
  else
    let n := number - s.given
    { s with queue := s.queue.take n ++ ⟨line, kind⟩ :: s.queue.drop n }

def move (s : Scanner) (c : Cursor) : Scanner := { s with cursor := c }

def stopWaiting (s : Scanner) (number : Nat) : Scanner :=
  { s with waiting := s.waiting.filter fun w => w.1 ≠ number }

def latestKey (s : Scanner) : PossibleKey := s.keys.headD noKey

def setLatestKey (s : Scanner) (k : PossibleKey) : Scanner := { s with keys := k :: s.keys.drop 1 }

def keyLength : Nat := 1024

def maxDepth : Nat := 10000

def isStillPossible (s : Scanner) (k : PossibleKey) : Except Fault Bool :=
  if !k.possible then .ok false
  else if k.line < s.cursor.line || k.index + keyLength < s.cursor.index then
    if k.required then s.fail .missingColon else .ok false
  else .ok true

def removeKey (s : Scanner) : Except Fault Scanner :=
  let k := s.latestKey
  if !k.possible then .ok s
  else if k.required then s.fail .missingColon
  else .ok ((s.setLatestKey { k with possible := false }).stopWaiting k.number)

def saveKey (s : Scanner) : Except Fault Scanner :=
  if !s.keyAllowed then .ok s
  else do
    let c := s.cursor
    let k : PossibleKey :=
      ⟨true, !s.inFlow && s.indent = c.column, s.nextNumber, c.index, c.line, c.column⟩
    let s ← s.removeKey
    return { s.setLatestKey k with waiting := (k.number, s.depth) :: s.waiting }

def closeBlocks (column : Int) : List Int → Scanner → Scanner
  | [], s => s
  | i :: outer, s =>
    if s.indent ≤ column then s
    else closeBlocks column outer { s.push s.cursor.line .blockEnd with indent := i, outer := outer }

def unroll (s : Scanner) (column : Int) : Scanner :=
  if s.inFlow then s else closeBlocks column s.outer s

def roll (s : Scanner) (column number line : Nat) (kind : TokenKind) : Except Fault Scanner :=
  if s.inFlow || column ≤ s.indent then .ok s
  else
    let s := { s with indent := column, outer := s.indent :: s.outer }
    if maxDepth < s.outer.length then s.fail .tooDeep else .ok (s.insertAt number line kind)

def rollHere (s : Scanner) (kind : TokenKind) : Except Fault Scanner :=
  s.roll s.cursor.column s.nextNumber s.cursor.line kind

def take (s : Scanner) (n : Nat) (kind : TokenKind) : Scanner :=
  (s.push s.cursor.line kind).move (s.cursor.skip n)

/-- Whether the first character of a line is passed over as a mark of the byte order. It is if it is one of the
last two characters and such a mark; elsewhere what the text starts with counts for every line. -/
def isPassedMark (marked : Bool) (c : Char) (rest : List Char) : Bool :=
  if (rest.drop 1).isEmpty then c = orderMarkChar else marked

/-- The place of the next token behind blanks, comments and breaks, and whether there was a break. Tabs are
blanks where no key may start: inside brackets, and elsewhere up to the next break. The text is `marked` if it
starts with a mark of the byte order, and `fresh` says whether a line starts here. -/
def nextPlace (marked inFlow tabs comment fresh broken : Bool) (index line column : Nat) :
    List Char → Cursor × Bool
  | [] => (⟨[], index, line, column⟩, broken)
  | '\r' :: '\n' :: rest =>
    if fresh && isPassedMark marked '\r' ('\n' :: rest) then
      nextPlace marked inFlow tabs comment false broken (index + 1) line (column + 1) ('\n' :: rest)
    else nextPlace marked inFlow inFlow false true true (index + 2) (line + 1) 0 rest
  | c :: rest =>
    if fresh && isPassedMark marked c rest then
      nextPlace marked inFlow tabs comment false broken (index + 1) line (column + 1) rest
    else if isBreak c then nextPlace marked inFlow inFlow false true true (index + 1) (line + 1) 0 rest
    else if comment || c = ' ' || (tabs && c = '\t') then
      nextPlace marked inFlow tabs comment false broken (index + 1) line (column + 1) rest
    else if c = '#' then nextPlace marked inFlow tabs true false broken (index + 1) line (column + 1) rest
    else (⟨c :: rest, index, line, column⟩, broken)

def toNextToken (s : Scanner) : Scanner :=
  let c := s.cursor
  let (place, broken) := nextPlace s.marked s.inFlow (s.inFlow || !s.keyAllowed) false (c.column = 0) false
    c.index c.line c.column c.rest
  { s with cursor := place, keyAllowed := s.keyAllowed || (broken && !s.inFlow) }

def fetchEnd (s : Scanner) : Except Fault Scanner := do
  let c := s.cursor
  let s := if c.column = 0 then s else s.move { c with line := c.line + 1, column := 0 }
  let s ← (s.unroll (-1)).removeKey
  return { s.push s.cursor.line .streamEnd with keyAllowed := false }

def leaveBlocks (s : Scanner) : Except Fault Scanner := do
  let s ← (s.unroll (-1)).removeKey
  return { s with keyAllowed := false }

def fetchDirective (s : Scanner) : Except Fault Scanner := do
  let s ← s.leaveBlocks
  let t ← directiveAt s.cursor
  return (s.push s.cursor.line t.kind).move t.cursor

def fetchMarker (s : Scanner) (kind : TokenKind) : Except Fault Scanner := do
  return (← s.leaveBlocks).take 3 kind

def openBracket (s : Scanner) (kind : TokenKind) : Except Fault Scanner := do
  let s ← s.saveKey
  let c := s.cursor
  let s := { s with
    depth := s.depth + 1
    keys := ⟨false, false, s.nextNumber, c.index, c.line, c.column⟩ :: s.keys }
  if maxDepth < s.depth then s.fail .tooDeep else return { s.take 1 kind with keyAllowed := true }

def leaveBracket (s : Scanner) : Scanner :=
  if s.inFlow then
    { s.stopWaiting s.latestKey.number with depth := s.depth - 1, keys := s.keys.drop 1 }
  else s

def closeBracket (s : Scanner) (kind : TokenKind) : Except Fault Scanner := do
  let s ← s.removeKey
  return { s.leaveBracket.take 1 kind with keyAllowed := false }

def fetchComma (s : Scanner) : Except Fault Scanner := do
  return { (← s.removeKey).take 1 .flowEntry with keyAllowed := true }

def fetchItem (s : Scanner) : Except Fault Scanner := do
  let s ←
    if s.inFlow then pure s
    else if !s.keyAllowed then s.fail .misplacedItem
    else s.rollHere .blockSequenceStart
  return { (← s.removeKey).take 1 .blockEntry with keyAllowed := true }

def fetchKey (s : Scanner) : Except Fault Scanner := do
  let s ←
    if s.inFlow then pure s
    else if !s.keyAllowed then s.fail .misplacedKey
    else s.rollHere .blockMappingStart
  return { (← s.removeKey).take 1 .key with keyAllowed := !s.inFlow }

def fetchValue (s : Scanner) : Except Fault Scanner := do
  let k := s.latestKey
  if ← s.isStillPossible k then
    let s := s.insertAt k.number k.line .key
    let s ← s.roll k.column k.number k.line .blockMappingStart
    let s := (s.setLatestKey { k with possible := false }).stopWaiting k.number
    return { s.take 1 .value with keyAllowed := false }
  else
    let s := s.setLatestKey { k with possible := false }
    let s ←
      if s.inFlow then pure s
      else if !s.keyAllowed then s.fail .misplacedValue
      else s.rollHere .blockMappingStart
    return { s.take 1 .value with keyAllowed := !s.inFlow }

def fetchProperty (s : Scanner) (read : Cursor → Except Fault TokenEnd) : Except Fault Scanner := do
  let s ← s.saveKey
  let t ← read s.cursor
  return { (s.push s.cursor.line t.kind).move t.cursor with keyAllowed := false }

def pushScalar (s : Scanner) (e : ScalarEnd) (plain : Bool) : Scanner :=
  (s.push s.cursor.line (.scalar (Bytes.ofChars e.text) plain)).move e.cursor

def fetchBlock (s : Scanner) (literal : Bool) : Except Fault Scanner := do
  let s ← s.removeKey
  let e ← blockScalar literal s.indent s.cursor
  return { s.pushScalar e false with keyAllowed := true }

def fetchQuoted (s : Scanner) (quote : Char) : Except Fault Scanner := do
  let s ← s.saveKey
  let e ← quotedScalar quote s.cursor
  return { s.pushScalar e false with keyAllowed := false }

def fetchPlain (s : Scanner) : Except Fault Scanner := do
  let s ← s.saveKey
  let e ← plainScalar s.inFlow (s.indent + 1).toNat s.cursor
  return { s.pushScalar e true with keyAllowed := e.broken }

def isMark (c : Char) : Bool :=
  c = '-' || c = '?' || c = ':' || c = ',' || c = '[' || c = ']' || c.toNat = 0x7B || c.toNat = 0x7D ||
    c = '#' || c = '&' || c = '*' || c = '!' || c = '|' || c = '>' || c.toNat = 39 || c = '"' || c = '%' ||
    c = '@' || c.toNat = 96

def startsPlain (s : Scanner) (c : Char) : Bool :=
  !(isBlank c || isBreak c || isMark c) || (c = '-' && !s.cursor.next?.any isBlank) ||
    (!s.inFlow && (c = '?' || c = ':') && !endsWord s.cursor.next?)

def fetchAt (s : Scanner) (c : Char) : Except Fault Scanner :=
  let ends := s.inFlow || endsWord s.cursor.next?
  if c = '%' && s.cursor.column = 0 then s.fetchDirective
  else if s.cursor.hasMarker '-' then s.fetchMarker .documentStart
  else if s.cursor.hasMarker '.' then s.fetchMarker .documentEnd
  else if c = '[' then s.openBracket .flowSequenceStart
  else if c.toNat = 0x7B then s.openBracket .flowMappingStart
  else if c = ']' then s.closeBracket .flowSequenceEnd
  else if c.toNat = 0x7D then s.closeBracket .flowMappingEnd
  else if c = ',' then s.fetchComma
  else if c = '-' && endsWord s.cursor.next? then s.fetchItem
  else if c = '?' && ends then s.fetchKey
  else if c = ':' && ends then s.fetchValue
  else if c = '*' then s.fetchProperty (nameAt · .reference)
  else if c = '&' then s.fetchProperty (nameAt · .anchor)
  else if c = '!' then s.fetchProperty tagAt
  else if c = '|' && !s.inFlow then s.fetchBlock true
  else if c = '>' && !s.inFlow then s.fetchBlock false
  else if c.toNat = 39 || c = '"' then s.fetchQuoted c
  else if s.startsPlain c then s.fetchPlain
  else s.fail .noToken

def fetchHere (s : Scanner) : Except Fault Scanner :=
  let s := s.unroll s.cursor.column
  match s.cursor.peek? with
  | none => s.fetchEnd
  | some c => s.fetchAt c

/-- Whether a token needs characters behind the last one: it starts less than four characters in front of the
end, it is quoted and not closed, or fewer than two characters follow it. -/
def reachesEnd (s : Scanner) (next : Except Fault Scanner) : Bool :=
  (s.cursor.rest.drop 3).isEmpty || match next with
    | .ok t => !s.cursor.atMarker && (t.cursor.rest.drop 1).isEmpty
    | .error f => f.problem = .openQuote

/-- Reads the next token into the queue. The text behind the last character that can be read is a fault only
for a token that needs it. -/
def fetch (s : Scanner) : Except Fault Scanner :=
  let s := s.toNextToken
  let next := s.fetchHere
  match s.unreadable with
  | none => next
  | some f => if s.reachesEnd next then .error f else next

def headMayBeKey (s : Scanner) : Except Fault Bool :=
  match s.waiting.lookup s.given with
  | none => .ok false
  | some depth =>
    match s.keys[s.depth - depth]? with
    | none => .ok false
    | some k => s.isStillPossible k

end Scanner

structure Tokens where
  list : List Token
  fault : Option Fault
deriving Repr

def Tokens.cons (t : Token) (ts : Tokens) : Tokens := ⟨t :: ts.list, ts.fault⟩

def Scanner.tokens : (steps : Nat) → Scanner → Tokens
  | 0, _ => ⟨[], none⟩
  | steps + 1, s =>
    let ready : Except Fault Bool := if s.queue = [] then .ok false else s.headMayBeKey.map (!·)
    match ready, s.queue with
    | .error e, _ => ⟨[], some e⟩
    | .ok true, t :: queue =>
      if t.kind = .streamEnd then ⟨[t], none⟩
      else (tokens steps { s with queue := queue, given := s.given + 1 }).cons t
    | _, _ =>
      match s.fetch with
      | .error e => ⟨[], some e⟩
      | .ok s => tokens steps s

/-- A text is read to its end in so many steps for each of its characters: every step reads a token or gives
one out, and a token brings at most four others with it. -/
def stepsPerChar : Nat := 8

def tokens (r : Readable) : Tokens := (Scanner.start r).tokens (stepsPerChar * (r.chars.length + 4))

end CircuitDesk.Yaml
