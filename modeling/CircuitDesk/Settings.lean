import CircuitDesk.Bytes.Quoted
import CircuitDesk.Drawing
import CircuitDesk.Duration
import CircuitDesk.Files
import CircuitDesk.Yaml.Expansion
import CircuitDesk.Yaml.Node.OfTokens
import CircuitDesk.Yaml.Value

namespace CircuitDesk

structure DiagramSettings where
  maxColumns : Int64
  color : Bool
deriving DecidableEq, Repr

structure Settings where
  workers : Int64
  timeout : Duration
  strictCalls : Bool
  debug : Bool
  diagram : DiagramSettings
deriving DecidableEq, Repr

namespace Settings

def standard (processors : Nat := 4) : Settings := ⟨.ofNat processors, .ofSeconds 10, false, false, ⟨0, true⟩⟩

def zero : Settings := ⟨0, .zero, false, false, ⟨0, false⟩⟩

inductive Refusal where
  | workers (n : Int64)
  | timeout (d : Duration)
  | maxColumns (n : Int64)
deriving DecidableEq, Repr

def Refusal.message : Refusal → Bytes
  | workers n => Bytes.ofString "workers must be at least 1, got " ++ Bytes.ofInt64 n
  | timeout d => Bytes.ofString "timeout must not be negative, got " ++ d.text
  | maxColumns n => Bytes.ofString "diagram.maxColumns must not be negative, got " ++ Bytes.ofInt64 n

def check (s : Settings) : Except Refusal Unit :=
  if s.workers < 1 then .error (.workers s.workers)
  else if s.timeout.nanoseconds < 0 then .error (.timeout s.timeout)
  else if s.diagram.maxColumns < 0 then .error (.maxColumns s.diagram.maxColumns)
  else .ok ()

def boolText (b : Bool) : Bytes := if b then "true" else "false"

def entryText (key value : Bytes) : Bytes := key ++ ": " ++ value ++ [Bytes.newline]

def text (s : Settings) : Bytes :=
  entryText "workers" (Bytes.ofInt64 s.workers) ++ entryText "timeout" s.timeout.text ++
    entryText "strictCalls" (boolText s.strictCalls) ++ entryText "debug" (boolText s.debug) ++
    "diagram:\n" ++ entryText "  maxColumns" (Bytes.ofInt64 s.diagram.maxColumns) ++
    entryText "  color" (boolText s.diagram.color)

inductive Wanted where
  | int
  | bool
  | string
  | duration
  | settings
  | diagram
deriving DecidableEq, Repr

def Wanted.text : Wanted → Bytes
  | int => "int"
  | bool => "bool"
  | string => "string"
  | duration => "config.Duration"
  | settings => "config.Config"
  | diagram => "config.DiagramConfig"

inductive Issue where
  | unknownField (line : Nat) (key : Bytes) (owner : Wanted)
  | repeatedField (line : Nat) (key : Bytes) (owner : Wanted)
  | wrongType (line : Nat) (found : Bytes) (wanted : Wanted)
deriving DecidableEq, Repr

def shownValue (v : Bytes) : Bytes :=
  Bytes.ofString " `" ++ (if 10 < v.length then v.take 7 ++ "..." else v) ++ "`"

def Issue.text : Issue → Bytes
  | unknownField line key owner =>
    Bytes.ofString "line " ++ Bytes.ofNat line ++ ": field " ++ key ++ " not found in type " ++ owner.text
  | repeatedField line key owner =>
    Bytes.ofString "line " ++ Bytes.ofNat line ++ ": field " ++ key ++ " already set in type " ++ owner.text
  | wrongType line found wanted =>
    Bytes.ofString "line " ++ Bytes.ofNat line ++ ": cannot unmarshal " ++ found ++ " into " ++ wanted.text

def issuesText (issues : List Issue) : Bytes :=
  Bytes.ofString "yaml: unmarshal errors:" ++ issues.flatMap fun i => Bytes.ofString "\n  " ++ i.text

inductive TextFault where
  | form (f : Yaml.Fault)
  | issues (is : List Issue)
  | durationForm (f : Yaml.Fault)
  | durationType (i : Issue)
  | duration (source : Bytes) (cause : Duration.Cause)
  | refused (r : Refusal)
deriving DecidableEq, Repr

def TextFault.message : TextFault → Bytes
  | form f => f.message
  | issues is => issuesText is
  | durationForm f => Bytes.ofString "unmarshal duration: " ++ f.message
  | durationType i => Bytes.ofString "unmarshal duration: " ++ issuesText [i]
  | duration source cause =>
    Bytes.ofString "parse duration " ++ Bytes.quoted source ++ ": " ++ cause.message source
  | refused r => r.message

def shownNode : Yaml.Node → Bytes
  | .scalar _ tag implicit t =>
    let own := match Yaml.Value.ofScalar tag implicit t with
      | .ok v => v.tag
      | .error _ => tag
    let tag := if tag = [] then own else tag
    Yaml.shownTag tag ++ if tag = Yaml.sequenceTag || tag = Yaml.mappingTag then t else shownValue t
  | .sequence .. => Yaml.shownTag Yaml.sequenceTag
  | .mapping .. => Yaml.shownTag Yaml.mappingTag
  | .reference .. => []

def mismatch (n : Yaml.Node) (wanted : Wanted) : Issue := .wrongType (n.line + 1) (shownNode n) wanted

structure Progress (α : Type) where
  value : α
  issues : List Issue
  expansion : Yaml.Expansion

namespace Progress

def start {α : Type} (a : α) : Progress α := ⟨a, [], .start⟩

def note {α : Type} (p : Progress α) (i : Issue) : Progress α := { p with issues := p.issues ++ [i] }

def count {α : Type} (p : Progress α) (referred : Bool) : Except Yaml.Fault (Progress α) :=
  (p.expansion.count referred).map fun e => { p with expansion := e }

def visit {α : Type} (p : Progress α) (active : List Nat) (n : Yaml.Node) : Except TextFault (Progress α) :=
  (do
    let p ← p.count (active ≠ [])
    if n.isReference then p.count true else return p).mapError .form

def set {α β : Type} (p : Progress α) (n : Yaml.Node) (wanted : Wanted) (b : Option β) (f : α → β → α) :
    Progress α :=
  match b with
  | some b => { p with value := f p.value b }
  | none => p.note (mismatch n wanted)

end Progress

def target (d : Yaml.Document) (n : Yaml.Node) : Yaml.Node :=
  match n with
  | .reference line _ i _ => (d.anchored.lookup i).getD (.absent line)
  | n => n

def scalarValue (n : Yaml.Node) : Except TextFault (Option Yaml.Value) :=
  match n with
  | .scalar _ tag implicit t => ((Yaml.Value.ofScalar tag implicit t).map some).mapError .form
  | _ => .ok none

def intOf? : Yaml.Value → Option Int64
  | .null => some 0
  | .int i => if i < Integer64.bound then some (Int64.ofInt i) else none
  | .float x => Yaml.Value.wholePart? x
  | _ => none

def boolOf? : Yaml.Value → Option Bool
  | .null => some false
  | .bool b => some b
  | _ => none

def textOf (n : Yaml.Node) : Except Yaml.Fault (Option Bytes) :=
  match n with
  | .scalar _ tag implicit t => do
    match ← Yaml.Value.ofScalar tag implicit t with
    | .null => return some []
    | .text s => return some s
    | _ => return some t
  | _ => .ok none

def isNothing : Yaml.Node → Bool
  | .scalar _ tag implicit t =>
    tag = Yaml.nullTag ||
      (tag = [] && (t = Bytes.ofString "null" || t = Bytes.ofString "~" || (t = [] && implicit)))
  | _ => false

/-- A duration is the text of its scalar, and nothing is a duration of zero; quoted, the words for nothing are
no duration. A fault in the text ends the reading at once. -/
def durationOf (n : Yaml.Node) : Except TextFault (Option Duration) :=
  if isNothing n then do
    return if (← scalarValue n) = some .null then some .zero else none
  else match textOf n with
    | .error f => .error (.durationForm f)
    | .ok none => .error (.durationType (mismatch n .string))
    | .ok (some t) =>
      match Duration.parse t with
      | .ok d => .ok (some d)
      | .error c => .error (.duration t c)

abbrev FieldReader (α : Type) := List Nat → Yaml.Node → Progress α → Except TextFault (Progress α)

structure Group (α : Type) where
  type : Wanted
  zero : α
  fields : List (Bytes × FieldReader α)

namespace Group

def isMerge : Yaml.Node → Bool
  | .scalar _ tag implicit t => t = Bytes.ofString "<<" && (implicit || tag = Yaml.mergeTag)
  | _ => false

def isMapping : Yaml.Node → Bool
  | .mapping .. => true
  | _ => false

def requireMapping (d : Yaml.Document) (n : Yaml.Node) : Except TextFault Unit :=
  if isMapping (target d n) then .ok () else .error (.form (.ofProblem .notMergeable))

def mergedParts : Yaml.Node → List Yaml.Node
  | .sequence _ items => items.reverse
  | n => [n]

mutual

/-- Reads a group. `active` are the references that are being followed; the fuel bounds how deep mappings are
merged into each other. -/
def read {α : Type} (g : Group α) (d : Yaml.Document) :
    (fuel : Nat) → List Nat → Yaml.Node → Progress α → Except TextFault (Progress α)
  | 0, _, _, p => .ok p
  | fuel + 1, active, n, p => do
    let p ← (p.count (active ≠ [])).mapError .form
    match n with
    | .reference _ name _ number =>
      if active.any (· = number) then .error (.form (.ofProblem (.selfReference name)))
      else read g d fuel (number :: active) (target d n) p
    | .mapping _ entries => readEntries g d fuel active [] entries p
    | .sequence .. => .ok (p.note (mismatch n g.type))
    | .scalar .. =>
      if (← scalarValue n) = some .null then return { p with value := g.zero }
      else return p.note (mismatch n g.type)

def readEntries {α : Type} (g : Group α) (d : Yaml.Document) :
    (fuel : Nat) → List Nat → (seen : List Bytes) → List (Yaml.Node × Yaml.Node) → Progress α →
      Except TextFault (Progress α)
  | 0, _, _, _, p => .ok p
  | _, _, _, [], p => .ok p
  | fuel + 1, active, seen, (k, n) :: rest, p => do
    if isMerge k then
      readEntries g d fuel active seen rest (← readMerged g d fuel active (mergedParts n) p)
    else
      let p ← p.visit active k
      match (← (textOf (target d k)).mapError .form) with
      | none => readEntries g d fuel active seen rest (p.note (mismatch (target d k) .string))
      | some key =>
        match g.fields.lookup key with
        | none => readEntries g d fuel active seen rest (p.note (.unknownField (k.line + 1) key g.type))
        | some readField =>
          if seen.any (· = key) then
            readEntries g d fuel active seen rest (p.note (.repeatedField (k.line + 1) key g.type))
          else readEntries g d fuel active (key :: seen) rest (← readField active n p)

def readMerged {α : Type} (g : Group α) (d : Yaml.Document) :
    (fuel : Nat) → List Nat → List Yaml.Node → Progress α → Except TextFault (Progress α)
  | 0, _, _, p => .ok p
  | _, _, [], p => .ok p
  | fuel + 1, active, n :: rest, p => do
    requireMapping d n
    readMerged g d fuel active rest (← read g d fuel active n p)

end

end Group

/-- Every path through a document is shorter than this, as each reference is followed once on it. -/
def readingBound (d : Yaml.Document) : Nat := (d.references + 1) * d.depthBound + 1

def scalarField {α β : Type} (d : Yaml.Document) (wanted : Wanted) (read : Yaml.Value → Option β)
    (set : α → β → α) : FieldReader α := fun active n p => do
  let p ← p.visit active n
  let n := target d n
  return p.set n wanted ((← scalarValue n).bind read) set

/-- A field with a duration. Unless there is nothing, it is read once more for its text. -/
def durationField {α : Type} (d : Yaml.Document) (set : α → Duration → α) : FieldReader α := fun active n p => do
  let p ← p.visit active n
  let t := target d n
  let p ← if isNothing t then pure p else (p.count (active ≠ [] || n.isReference)).mapError .durationForm
  return p.set t .duration (← durationOf t) set

def diagramGroup (d : Yaml.Document) : Group DiagramSettings where
  type := .diagram
  zero := zero.diagram
  fields := [
    ("maxColumns", scalarField d .int intOf? fun s i => { s with maxColumns := i }),
    ("color", scalarField d .bool boolOf? fun s b => { s with color := b })]

def settingsGroup (d : Yaml.Document) : Group Settings where
  type := .settings
  zero := zero
  fields := [
    ("workers", scalarField d .int intOf? fun s i => { s with workers := i }),
    ("timeout", durationField d fun s t => { s with timeout := t }),
    ("strictCalls", scalarField d .bool boolOf? fun s b => { s with strictCalls := b }),
    ("debug", scalarField d .bool boolOf? fun s b => { s with debug := b }),
    ("diagram", fun active n p => do
      let q ← (diagramGroup d).read d (readingBound d) active n { p with value := p.value.diagram }
      return { q with value := { p.value with diagram := q.value } })]

def ofDocument (d : Yaml.Document) (base : Settings) : Except TextFault (Progress Settings) :=
  (settingsGroup d).read d (readingBound d) [] d.root (.start base)

def ofText (s : Bytes) (base : Settings := standard) : Except TextFault Settings := do
  let p ← match ← (Yaml.parse s).mapError .form with
    | none => pure (.start base)
    | some d => ofDocument d base
  if p.issues ≠ [] then .error (.issues p.issues)
  else match p.value.check with
    | .error r => .error (.refused r)
    | .ok () => return p.value

inductive LoadFault where
  | unreadable (e : Files.Error)
  | text (path : Bytes) (e : TextFault)
deriving DecidableEq, Repr

def LoadFault.message : LoadFault → Bytes
  | unreadable e => Bytes.ofString "load config: " ++ e.message
  | text path e => Bytes.ofString "load config " ++ path ++ ": " ++ e.message

def load (fs : Files) (path : Bytes) (base : Settings := standard) : Except LoadFault Settings :=
  if path = [] then .ok base
  else match fs.read path with
    | .error e => .error (.unreadable e)
    | .ok contents => (ofText contents base).mapError (.text path)

def palette (s : Settings) : Palette := if s.diagram.color then .styled else .plain

def drawing (s : Settings) : Drawing.Options := ⟨s.palette, s.diagram.maxColumns.toInt⟩

def save (s : Settings) (fs : Files) (path : Bytes) : Files.Write := fs.write path s.text

end Settings

end CircuitDesk
