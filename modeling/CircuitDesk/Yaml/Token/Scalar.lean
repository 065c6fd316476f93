import CircuitDesk.Yaml.Cursor

/-!
Scalars: plain ones, quoted ones, and blocks of lines. Inside plain and quoted scalars a single break becomes a
blank and of several breaks the first is dropped; blocks keep their breaks or fold them in the same way.
-/
namespace CircuitDesk.Yaml

structure Gap where
  blanks : List Char
  broken : Bool
  first : List Char
  later : List Char
deriving DecidableEq, Repr

namespace Gap

def empty : Gap := ⟨[], false, [], []⟩

def text (g : Gap) : List Char :=
  if g.broken then
    if g.first.head? = some '\n' then if g.later = [] then [' '] else g.later
    else g.first ++ g.later
  else g.blanks

def addBlank (g : Gap) (c : Char) : Gap := if g.broken then g else { g with blanks := g.blanks ++ [c] }

def addBreak (g : Gap) (c : Char) : Gap :=
  if g.broken then { g with later := g.later ++ breakText c }
  else { g with blanks := [], broken := true, first := breakText c }

end Gap

/-- The gap at a place that goes on another, and the place behind it. On lines behind a break no tab stands in
front of column `least`. -/
def gapFrom (least index line column : Nat) (g : Gap) : List Char → Except Fault (Gap × Cursor)
  | [] => .ok (g, ⟨[], index, line, column⟩)
  | '\r' :: '\n' :: rest => gapFrom least (index + 2) (line + 1) 0 (g.addBreak '\n') rest
  | c :: rest =>
    if isBreak c then gapFrom least (index + 1) (line + 1) 0 (g.addBreak c) rest
    else if isBlank c then
      if g.broken && column < least && c = '\t' then .error (.onLine line .tabInPlain)
      else gapFrom least (index + 1) line (column + 1) (g.addBlank c) rest
    else .ok (g, ⟨c :: rest, index, line, column⟩)

def Cursor.gap (c : Cursor) (least : Nat) (g : Gap) : Except Fault (Gap × Cursor) :=
  gapFrom least c.index c.line c.column g c.rest

def isFlowMark (c : Char) : Bool :=
  c = ',' || c = '?' || c = '[' || c = ']' || c.toNat = 0x7B || c.toNat = 0x7D

def plainRun (inFlow : Bool) : List Char → Nat
  | [] => 0
  | c :: rest =>
    if isBlank c || isBreak c || (c = ':' && endsWord rest.head?) || (inFlow && isFlowMark c) then 0
    else plainRun inFlow rest + 1

structure ScalarEnd where
  text : List Char
  cursor : Cursor
  broken : Bool
deriving DecidableEq, Repr

/-- The rest of a plain scalar behind the characters of `done`, the last of which comes first, and a gap. Each
round takes a run of characters and a gap. -/
def plainFrom (inFlow : Bool) (least : Nat) : (rounds : Nat) → Cursor → (done : List Char) → Gap →
    Except Fault ScalarEnd
  | 0, c, done, g => .ok ⟨done.reverse, c, g.broken⟩
  | rounds + 1, c, done, g =>
    let n := plainRun inFlow c.rest
    if c.atMarker || c.peek? = some '#' || n = 0 then .ok ⟨done.reverse, c, g.broken⟩
    else do
      let done := (g.text ++ c.rest.take n).reverse ++ done
      let (g, c) ← (c.skip n).gap least .empty
      if g = .empty || (!inFlow && c.column < least) then return ⟨done.reverse, c, g.broken⟩
      else plainFrom inFlow least rounds c done g

def plainScalar (inFlow : Bool) (least : Nat) (c : Cursor) : Except Fault ScalarEnd :=
  plainFrom inFlow least (c.rest.length + 1) c [] .empty

def escapedChar? (c : Char) : Option Char :=
  if c = '0' then some '\x00'
  else if c = 'a' then some '\x07'
  else if c = 'b' then some '\x08'
  else if c = 't' || c = '\t' then some '\t'
  else if c = 'n' then some '\n'
  else if c = 'v' then some '\x0b'
  else if c = 'f' then some '\x0c'
  else if c = 'r' then some '\r'
  else if c = 'e' then some '\x1b'
  else if c = ' ' || c = '"' || c.toNat = 39 || c = '\\' then some c
  else if c = 'N' then some (Char.ofNat 0x85)
  else if c = '_' then some (Char.ofNat 0xA0)
  else if c = 'L' then some (Char.ofNat 0x2028)
  else if c = 'P' then some (Char.ofNat 0x2029)
  else none

def escapeDigits? (c : Char) : Option Nat :=
  if c = 'x' then some 2 else if c = 'u' then some 4 else if c = 'U' then some 8 else none

def hexValue? (c : Char) : Option Nat :=
  if c.isDigit then some (c.toNat - 48)
  else if 97 ≤ c.toNat && c.toNat ≤ 102 then some (c.toNat - 87)
  else if 65 ≤ c.toNat && c.toNat ≤ 70 then some (c.toNat - 55)
  else none

def hexNumber? (count : Nat) (cs : List Char) : Option Nat :=
  if cs.length < count then none
  else ((cs.take count).mapM hexValue?).map fun ds => ds.foldl (fun n d => 16 * n + d) 0

def escapeAt (c : Cursor) : Except Fault (Char × Cursor) :=
  match c.next? with
  | none => c.fail .unknownEscape
  | some e =>
    match escapedChar? e, escapeDigits? e with
    | some ch, _ => .ok (ch, c.skip 2)
    | none, none => c.fail .unknownEscape
    | none, some count =>
      match hexNumber? count (c.rest.drop 2) with
      | none => c.fail .badHexadecimal
      | some n =>
        if (0xD800 ≤ n && n ≤ 0xDFFF) || 0x10FFFF < n then c.fail .badEscapeCode
        else .ok (Char.ofNat n, c.skip (2 + count))

/-- The characters of a quoted scalar up to a blank, a break or its quote, in front of those of `done`, and
whether they ended with an escaped break. -/
def quotedRun (quote : Char) : (steps : Nat) → Cursor → (done : List Char) →
    Except Fault (List Char × Cursor × Bool)
  | 0, c, done => .ok (done, c, false)
  | steps + 1, c, done =>
    match c.peek? with
    | none => .ok (done, c, false)
    | some ch =>
      if isBlank ch || isBreak ch then .ok (done, c, false)
      else if ch = quote then
        if quote.toNat = 39 && c.next? = some quote then quotedRun quote steps (c.skip 2) (quote :: done)
        else .ok (done, c, false)
      else if quote = '"' && ch = '\\' then
        if c.next?.any isBreak then .ok (done, (c.skip 1).skipBreak, true)
        else do
          let (e, c) ← escapeAt c
          quotedRun quote steps c (e :: done)
      else quotedRun quote steps (c.skip 1) (ch :: done)

def quotedFrom (quote : Char) : (rounds : Nat) → Cursor → (done : List Char) → Except Fault ScalarEnd
  | 0, c, _ => c.fail .openQuote
  | rounds + 1, c, done =>
    if c.atMarker then c.fail .markerInQuotes
    else if c.rest = [] then c.fail .openQuote
    else do
      let (done, c, broken) ← quotedRun quote c.rest.length c done
      if c.peek? = some quote then return ⟨done.reverse, c.skip 1, false⟩
      else
        let (g, c) ← c.gap 0 { Gap.empty with broken := broken }
        quotedFrom quote rounds c (g.text.reverse ++ done)

def quotedScalar (quote : Char) (c : Cursor) : Except Fault ScalarEnd :=
  quotedFrom quote (c.rest.length + 1) (c.skip 1) []

inductive Chomping where
  | strip
  | clip
  | keep
deriving DecidableEq, Repr

def chomping? (c : Char) : Option Chomping :=
  if c = '+' then some .keep else if c = '-' then some .strip else none

structure BlockHead where
  chomping : Chomping
  indentation : Nat
deriving DecidableEq, Repr

def indentationAt (c : Cursor) : Except Fault (Nat × Cursor) :=
  match c.peek? with
  | none => .ok (0, c)
  | some ch =>
    if !ch.isDigit then .ok (0, c)
    else if ch = '0' then c.fail .zeroIndentation
    else .ok (ch.toNat - 48, c.skip 1)

def blockHead (c : Cursor) : Except Fault (BlockHead × Cursor) :=
  match c.peek?.bind chomping? with
  | some ch => do
    let (n, c) ← indentationAt (c.skip 1)
    return (⟨ch, n⟩, c)
  | none => do
    let (n, c) ← indentationAt c
    match if n = 0 then none else c.peek?.bind chomping? with
    | some ch => return (⟨ch, n⟩, c.skip 1)
    | none => return (⟨.clip, n⟩, c)

/-- Breaks and indentation in front of a line of a block, with the greatest column reached; an indentation of
zero is not known yet. -/
def blockGapFrom (indentation index line column : Nat) (breaks : List Char) (widest : Nat) :
    List Char → Except Fault (List Char × Nat × Cursor)
  | [] => .ok (breaks, max widest column, ⟨[], index, line, column⟩)
  | '\r' :: '\n' :: rest =>
    blockGapFrom indentation (index + 2) (line + 1) 0 (breaks ++ ['\n']) (max widest column) rest
  | c :: rest =>
    let inside := indentation = 0 || column < indentation
    if c = ' ' && inside then blockGapFrom indentation (index + 1) line (column + 1) breaks widest rest
    else if c = '\t' && inside then .error (.onLine line .tabInBlock)
    else if isBreak c then
      blockGapFrom indentation (index + 1) (line + 1) 0 (breaks ++ breakText c) (max widest column) rest
    else .ok (breaks, max widest column, ⟨c :: rest, index, line, column⟩)

def Cursor.blockGap (c : Cursor) (indentation : Nat) : Except Fault (List Char × Nat × Cursor) :=
  blockGapFrom indentation c.index c.line c.column [] 0 c.rest

structure BlockText where
  done : List Char
  lineEnd : List Char
  breaks : List Char
  startedBlank : Bool

/-- The text with the breaks in front of a next line. Folding turns a single break between lines that do not
start with a blank into a blank. -/
def BlockText.joined (b : BlockText) (literal nextBlank : Bool) : List Char :=
  let fold := !literal && !b.startedBlank && !nextBlank && b.lineEnd.head? = some '\n'
  let joint := if fold then if b.breaks = [] then [' '] else [] else b.lineEnd
  (joint ++ b.breaks).reverse ++ b.done

def blockLines (literal : Bool) (indentation : Nat) : (rounds : Nat) → Cursor → BlockText →
    Except Fault (BlockText × Cursor)
  | 0, c, b => .ok (b, c)
  | rounds + 1, c, b =>
    match c.peek? with
    | none => .ok (b, c)
    | some ch =>
      if c.column ≠ indentation then .ok (b, c)
      else do
        let line := c.rest.takeWhile fun ch => !isBreak ch
        let after := c.skip line.length
        let lineEnd := match after.peek? with
          | some e => breakText e
          | none => []
        let (breaks, _, next) ← after.skipBreak.blockGap indentation
        blockLines literal indentation rounds next
          ⟨line.reverse ++ b.joined literal (isBlank ch), lineEnd, breaks, isBlank ch⟩

def BlockText.chomped (b : BlockText) : Chomping → List Char
  | .strip => b.done.reverse
  | .clip => b.done.reverse ++ b.lineEnd
  | .keep => b.done.reverse ++ b.lineEnd ++ b.breaks

def blockScalar (literal : Bool) (outer : Int) (c : Cursor) : Except Fault ScalarEnd := do
  let (head, c) ← blockHead (c.skip 1)
  let c ← c.endLine
  let given := if head.indentation = 0 then 0 else (max outer 0).toNat + head.indentation
  let (breaks, widest, c) ← c.blockGap given
  let indentation := if given = 0 then max (max widest (outer + 1).toNat) 1 else given
  let (b, c) ← blockLines literal indentation (c.rest.length + 1) c ⟨[], [], breaks, false⟩
  return ⟨b.chomped head.chomping, c, false⟩

end CircuitDesk.Yaml
