import CircuitDesk.Yaml.Node
import CircuitDesk.Yaml.Token.Queue

namespace CircuitDesk.Yaml

structure Reader where
  tokens : List Token
  fault : Fault
  handles : List (Bytes × Bytes)
  names : List (Bytes × Nat)
  anchored : List (Nat × Node)
  anchors : Nat
  references : Nat

abbrev Reading := StateT Reader (Except Fault)

namespace Reading

def peek : Reading Token := do
  let r ← get
  match r.tokens with
  | t :: _ => return t
  | [] => throw r.fault

def skip : Reading Unit := modify fun r => { r with tokens := r.tokens.drop 1 }

def refuse {α : Type} (t : Token) (p : Problem) : Reading α := throw (.atToken t.line p)

def nameAnchor (anchor : Option Bytes) : Reading (Option Nat) := do
  match anchor with
  | none => return none
  | some name =>
    let r ← get
    set { r with names := (name, r.anchors) :: r.names, anchors := r.anchors + 1 }
    return some r.anchors

def keep (number : Option Nat) (n : Node) : Reading Node := do
  match number with
  | none => return n
  | some i =>
    modify fun r => { r with anchored := (i, n) :: r.anchored }
    return n

def reference (line : Nat) (name : Bytes) : Reading Node := do
  let r ← get
  match r.names.lookup name with
  | none => throw (.ofProblem (.unknownAnchor name))
  | some target =>
    set { r with references := r.references + 1 }
    return .reference line name target r.references

structure Properties where
  line : Nat
  anchor : Option Bytes
  tag : Option (Token × Bytes × Bytes)

def anchorAfter (p : Properties) : Reading Properties := do
  let t ← peek
  match t.kind with
  | .anchor name => skip; return { p with anchor := some name }
  | _ => return p

def tagAfter (p : Properties) : Reading Properties := do
  let t ← peek
  match t.kind with
  | .tag handle suffix => skip; return { p with tag := some (t, handle, suffix) }
  | _ => return p

def properties : Reading Properties := do
  let t ← peek
  match t.kind with
  | .anchor name => skip; tagAfter ⟨t.line, some name, none⟩
  | .tag handle suffix => skip; anchorAfter ⟨t.line, none, some (t, handle, suffix)⟩
  | _ => return ⟨t.line, none, none⟩

def fullTag (p : Properties) : Reading Bytes := do
  match p.tag with
  | none => return []
  | some (t, handle, suffix) =>
    if handle = [] then return suffix
    else match (← get).handles.lookup handle with
      | some start => return start ++ suffix
      | none => refuse t .unknownTagHandle

def openTag : Bytes := "!"

mutual

/-- A part of the tree. Blocks by indentation stand outside of brackets only; below a key, items need no
indentation. The fuel bounds the nesting and the number of parts. -/
def node (inBlock indentless : Bool) : (fuel : Nat) → Reading Node
  | 0 => throw (.ofProblem .tooDeep)
  | fuel + 1 => do
    let t ← peek
    match t.kind with
    | .reference name => skip; reference t.line name
    | _ =>
      let p ← properties
      let t ← peek
      let tag ← fullTag p
      match t.kind with
      | .scalar text plain =>
        skip
        let number ← nameAnchor p.anchor
        keep number (.scalar p.line tag ((tag = [] && plain) || tag = openTag) text)
      | .flowSequenceStart =>
        let number ← nameAnchor p.anchor
        skip
        keep number (.sequence p.line (← flowItems true fuel))
      | .flowMappingStart =>
        let number ← nameAnchor p.anchor
        skip
        keep number (.mapping p.line (← flowEntries true fuel))
      | .blockEntry =>
        if indentless then
          let number ← nameAnchor p.anchor
          keep number (.sequence p.line (← indentlessItems fuel))
        else emptyNode p tag t
      | .blockSequenceStart =>
        if inBlock then
          let number ← nameAnchor p.anchor
          skip
          keep number (.sequence p.line (← blockItems fuel))
        else emptyNode p tag t
      | .blockMappingStart =>
        if inBlock then
          let number ← nameAnchor p.anchor
          skip
          keep number (.mapping p.line (← blockEntries fuel))
        else emptyNode p tag t
      | _ => emptyNode p tag t

def emptyNode (p : Properties) (tag : Bytes) (t : Token) : Reading Node := do
  if p.anchor.isNone && tag = [] then refuse t .noContent
  else
    let number ← nameAnchor p.anchor
    keep number (.scalar p.line tag (tag = []) [])

def blockItems : (fuel : Nat) → Reading (List Node)
  | 0 => throw (.ofProblem .tooDeep)
  | fuel + 1 => do
    let t ← peek
    match t.kind with
    | .blockEntry =>
      skip
      let next ← peek
      let n ←
        if next.kind = .blockEntry || next.kind = .blockEnd then pure (.absent t.line) else node true false fuel
      return n :: (← blockItems fuel)
    | .blockEnd => skip; return []
    | _ => refuse t .noItem

def indentlessItems : (fuel : Nat) → Reading (List Node)
  | 0 => throw (.ofProblem .tooDeep)
  | fuel + 1 => do
    let t ← peek
    match t.kind with
    | .blockEntry =>
      skip
      let next ← peek
      let ends := next.kind = .blockEntry || next.kind = .key || next.kind = .value || next.kind = .blockEnd
      let n ← if ends then pure (.absent t.line) else node true false fuel
      return n :: (← indentlessItems fuel)
    | _ => return []

def blockPart (line : Nat) : (fuel : Nat) → Reading Node
  | 0 => throw (.ofProblem .tooDeep)
  | fuel + 1 => do
    let next ← peek
    if next.kind = .key || next.kind = .value || next.kind = .blockEnd then return .absent line
    else node true true fuel

def blockEntries : (fuel : Nat) → Reading (List (Node × Node))
  | 0 => throw (.ofProblem .tooDeep)
  | fuel + 1 => do
    let t ← peek
    match t.kind with
    | .key =>
      skip
      let k ← blockPart t.line fuel
      let t ← peek
      let v ←
        if t.kind = .value then
          skip
          blockPart t.line fuel
        else pure (.absent t.line)
      return (k, v) :: (← blockEntries fuel)
    | .blockEnd => skip; return []
    | _ => refuse t .noKey

/-- The items between square brackets. A key among them makes a mapping of one entry. -/
def flowItems (first : Bool) : (fuel : Nat) → Reading (List Node)
  | 0 => throw (.ofProblem .tooDeep)
  | fuel + 1 => do
    let t ← peek
    if t.kind = .flowSequenceEnd then
      skip
      return []
    else
      if !first then
        if t.kind = .flowEntry then skip else refuse t .unclosedList
      let t ← peek
      match t.kind with
      | .flowSequenceEnd => skip; return []
      | .key =>
        skip
        let entry ← pairEntry fuel
        return .mapping t.line [entry] :: (← flowItems false fuel)
      | _ =>
        let n ← node false false fuel
        return n :: (← flowItems false fuel)

/-- The entry of a mapping that is an item of a list. A key that is not written takes the colon with it. -/
def pairEntry : (fuel : Nat) → Reading (Node × Node)
  | 0 => throw (.ofProblem .tooDeep)
  | fuel + 1 => do
    let t ← peek
    let k ←
      if t.kind = .value || t.kind = .flowEntry || t.kind = .flowSequenceEnd then
        skip
        pure (.absent t.line)
      else node false false fuel
    let t ← peek
    if t.kind = .value then
      skip
      let next ← peek
      let v ←
        if next.kind = .flowEntry || next.kind = .flowSequenceEnd then pure (.absent t.line)
        else node false false fuel
      let _ ← peek
      return (k, v)
    else return (k, .absent t.line)

def flowEntries (first : Bool) : (fuel : Nat) → Reading (List (Node × Node))
  | 0 => throw (.ofProblem .tooDeep)
  | fuel + 1 => do
    let t ← peek
    if t.kind = .flowMappingEnd then
      skip
      return []
    else
      if !first then
        if t.kind = .flowEntry then skip else refuse t .unclosedMapping
      let t ← peek
      match t.kind with
      | .flowMappingEnd => skip; return []
      | .key =>
        skip
        let next ← peek
        let k ←
          if next.kind = .value || next.kind = .flowEntry || next.kind = .flowMappingEnd then
            pure (.absent next.line)
          else node false false fuel
        let v ← flowValue fuel
        return (k, v) :: (← flowEntries false fuel)
      | _ =>
        let k ← node false false fuel
        let next ← peek
        return (k, .absent next.line) :: (← flowEntries false fuel)

def flowValue : (fuel : Nat) → Reading Node
  | 0 => throw (.ofProblem .tooDeep)
  | fuel + 1 => do
    let t ← peek
    if t.kind = .value then
      skip
      let next ← peek
      if next.kind = .flowEntry || next.kind = .flowMappingEnd then return .absent next.line
      else node false false fuel
    else return .absent t.line

end

def standardHandles : List (Bytes × Bytes) := [("!", "!"), ("!!", "tag:yaml.org,2002:")]

def directives (versionSeen : Bool) : (fuel : Nat) → Reading Unit
  | 0 => return
  | fuel + 1 => do
    let t ← peek
    match t.kind with
    | .version major minor =>
      if versionSeen then refuse t .repeatedVersion
      else if major ≠ 1 ∨ minor ≠ 1 then refuse t .otherVersion
      else
        skip
        directives true fuel
    | .tagDirective handle start =>
      if ((← get).handles.lookup handle).isSome then refuse t .repeatedTagDirective
      else
        modify fun r => { r with handles := (handle, start) :: r.handles }
        skip
        directives versionSeen fuel
    | _ => modify fun r => { r with handles := r.handles ++ standardHandles }

def document (fuel : Nat) : Reading (Option Node) := do
  skip
  let t ← peek
  match t.kind with
  | .streamEnd => return none
  | .version .. | .tagDirective .. | .documentStart =>
    directives false fuel
    let t ← peek
    if t.kind ≠ .documentStart then refuse t .noDocumentStart
    else
      skip
      let t ← peek
      let root ← match t.kind with
        | .version .. | .tagDirective .. | .documentStart | .documentEnd | .streamEnd => pure (.absent t.line)
        | _ => node true false fuel
      let _ ← peek
      return some root
  | _ =>
    directives false fuel
    let root ← node true false fuel
    let _ ← peek
    return some root

end Reading

def parse (s : Bytes) : Except Fault (Option Document) := do
  let ts := tokens (characters s)
  let bound := 2 * ts.list.length + 4
  let reader : Reader := ⟨ts.list, ts.fault.getD (.ofProblem .noContent), [], [], [], 0, 0⟩
  let (root, r) ← (Reading.document bound).run reader
  return root.map fun n => ⟨n, r.anchored, r.references, bound⟩

end CircuitDesk.Yaml
