import CircuitDesk.Yaml.Token
import CircuitDesk.Yaml.Token.Scalar

namespace CircuitDesk.Yaml

structure TokenEnd where
  kind : TokenKind
  cursor : Cursor

def followsName : Option Char → Bool
  | none => true
  | some c =>
    isBlank c || isBreak c || c = '?' || c = ':' || c = ',' || c = ']' || c.toNat = 0x7D || c = '%' ||
      c = '@' || c.toNat = 96

def nameAt (c : Cursor) (kind : Bytes → TokenKind) : Except Fault TokenEnd :=
  let body := c.skip 1
  let name := body.rest.takeWhile isNameChar
  let after := body.skip name.length
  if name = [] || !followsName after.peek? then after.fail .badName
  else .ok ⟨kind (Bytes.ofChars name), after⟩

def isTagChar (c : Char) : Bool :=
  isNameChar c || c = ';' || c = '/' || c = '?' || c = ':' || c = '@' || c = '&' || c = '=' || c = '+' ||
    c = '$' || c = ',' || c = '.' || c = '!' || c = '~' || c = '*' || c.toNat = 39 || c = '(' || c = ')' ||
    c = '[' || c = ']'

def tagByte? (cs : List Char) : Option UInt8 :=
  match cs with
  | '%' :: rest => (hexNumber? 2 rest).map Nat.toUInt8
  | _ => none

def trailingTagBytes : (count : Nat) → Cursor → Except Fault (Bytes × Cursor)
  | 0, c => .ok ([], c)
  | count + 1, c =>
    match tagByte? c.rest with
    | none => c.fail .badTagEscape
    | some b =>
      if !Bytes.isContinuation b then c.fail .badTagTrailingByte
      else do
        let (bs, c) ← trailingTagBytes count (c.skip 3)
        return (b :: bs, c)

def escapedTagChar (c : Cursor) : Except Fault (Bytes × Cursor) :=
  match tagByte? c.rest with
  | none => c.fail .badTagEscape
  | some b =>
    match trailingBytes? b with
    | none => c.fail .badTagLeadingByte
    | some n => do
      let (bs, c) ← trailingTagBytes n (c.skip 3)
      return (b :: bs, c)

def tagText : (steps : Nat) → Cursor → Except Fault (Bytes × Cursor)
  | 0, c => .ok ([], c)
  | steps + 1, c =>
    match c.peek? with
    | none => .ok ([], c)
    | some ch =>
      if ch = '%' then do
        let (bs, c) ← escapedTagChar c
        let (more, c) ← tagText steps c
        return (bs ++ more, c)
      else if isTagChar ch then do
        let (more, c) ← tagText steps (c.skip 1)
        return (Bytes.ofChars [ch] ++ more, c)
      else .ok ([], c)

def someTagText (c : Cursor) : Except Fault (Bytes × Cursor) := do
  let (text, after) ← tagText (c.rest.length + 1) c
  if text = [] then after.fail .noTagText else return (text, after)

def tagHandle (c : Cursor) : List Char × Cursor :=
  let name := (c.skip 1).rest.takeWhile isNameChar
  let after := c.skip (1 + name.length)
  if after.peek? = some '!' then (['!'] ++ name ++ ['!'], after.skip 1) else ('!' :: name, after)

def tagForm (c : Cursor) : Except Fault TokenEnd :=
  if c.next? = some '<' then do
    let (text, c) ← someTagText (c.skip 2)
    if c.peek? = some '>' then return ⟨.tag [] text, c.skip 1⟩ else c.fail .noTagEnd
  else
    let (handle, c) := tagHandle c
    if 2 ≤ handle.length && handle.getLast? = some '!' then do
      let (text, c) ← someTagText c
      return ⟨.tag (Bytes.ofChars handle) text, c⟩
    else do
      let (more, c) ← tagText (c.rest.length + 1) c
      let text := Bytes.ofChars (handle.drop 1) ++ more
      return ⟨if text = [] then .tag [] "!" else .tag "!" text, c⟩

def tagAt (c : Cursor) : Except Fault TokenEnd := do
  let t ← tagForm c
  if endsWord t.cursor.peek? then return t else t.cursor.fail .noTagLineEnd

def versionDigits : Nat := 2

def versionNumber (c : Cursor) : Except Fault (Nat × Cursor) :=
  let digits := c.rest.takeWhile Char.isDigit
  if versionDigits < digits.length then c.fail .longVersion
  else if digits = [] then c.fail .noVersion
  else .ok (Bytes.natValue (Bytes.ofChars digits), c.skip digits.length)

def versionDirective (c : Cursor) : Except Fault TokenEnd := do
  let (major, c) ← versionNumber c.skipBlanks
  if c.peek? ≠ some '.' then c.fail .noVersionPoint
  else
    let (minor, c) ← versionNumber (c.skip 1)
    return ⟨.version major minor, c⟩

def tagDirective (c : Cursor) : Except Fault TokenEnd :=
  let c := c.skipBlanks
  if c.peek? ≠ some '!' then c.fail .noTagMark
  else
    let (handle, c) := tagHandle c
    if 2 ≤ handle.length && handle.getLast? ≠ some '!' then c.fail .noTagMark
    else if !c.peek?.any isBlank then c.fail .noTagBlank
    else do
      let (start, c) ← someTagText c.skipBlanks
      if endsWord c.peek? then return ⟨.tagDirective (Bytes.ofChars handle) start, c⟩
      else c.fail .noTagLineEnd

def directiveAt (c : Cursor) : Except Fault TokenEnd := do
  let body := c.skip 1
  let name := body.rest.takeWhile isNameChar
  let c := body.skip name.length
  if name = [] then c.fail .noDirectiveName
  else if !endsWord c.peek? then c.fail .badDirectiveName
  else
    let t ←
      if name = ['Y', 'A', 'M', 'L'] then versionDirective c
      else if name = ['T', 'A', 'G'] then tagDirective c
      else c.fail .unknownDirective
    return { t with cursor := ← t.cursor.endLine }

end CircuitDesk.Yaml
