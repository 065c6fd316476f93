import CircuitDesk.Program
import CircuitDesk.SemanticFault
import CircuitDesk.Tree

/-!
Values from parse trees. Each function reads the tree of one rule and refuses what has no meaning: unknown
operations, numbers out of range, signs where none may stand, repeated wires and names. A tree of another
form is refused as misplaced; trees that come from source texts never are.
-/
namespace CircuitDesk

abbrev Checked (α : Type) : Type := Except SemanticFault α

namespace Tree

def fault {α : Type} (t : Token) (literal : Bytes) (cause : SemanticCause) : Checked α :=
  .error ⟨t.pos, literal, cause⟩

/-- Refuses a tree where the tree of another rule should stand. -/
def refuse {α : Type} (wanted : Rule) (t : Tree) : Checked α :=
  .error ⟨t.pos, [], .misplaced t.rule wanted⟩

def number? (ds : Bytes) : Option Int64 :=
  let n := Bytes.natValue ds
  if n < Integer64.bound then some (Int64.ofNat n) else none

def unquoted (t : Token) : Bytes := (t.text.drop 1).dropLast

def wireNumber (t : Token) : Checked Wire :=
  if t.text.head? = some 43 then fault t t.text .strayPolarity
  else if t.text.head? = some 45 then fault t t.text .negativeWire
  else match number? t.text with
    | some w => .ok w
    | none => fault t t.text .wireOutOfRange

def controlRef (t : Token) : Checked ControlRef :=
  match t.text with
  | [] => fault t t.text .missingPolarity
  | sign :: ds =>
    if sign = 43 ∨ sign = 45 then
      match number? ds with
      | some w => .ok ⟨w, sign = 43⟩
      | none => fault t t.text .wireOutOfRange
    else fault t t.text .missingPolarity

def leafWire : Tree → Checked Wire
  | .leaf t => wireNumber t
  | t => refuse .terminal t

def leafControlRef : Tree → Checked ControlRef
  | .leaf t => controlRef t
  | t => refuse .terminal t

def isInverted (t : Tree) : Bool := !t.parts.isEmpty

def toWireList : Tree → Checked (List Wire)
  | .node .intList _ parts => parts.mapM leafWire
  | t => refuse .intList t

def toControl : Tree → Checked Control
  | .node .controlApp _ [] => .ok .none
  | .node .controlApp _ [.leaf _] => .ok ⟨[], true⟩
  | .node .controlApp opening (.node .signedList word refs :: more) =>
    if refs.isEmpty then
      let whole := Tree.node .controlApp opening (.node .signedList word refs :: more)
      .error ⟨whole.pos, "controls=[]", .noControls⟩
    else do
      let refs ← refs.mapM leafControlRef
      return ⟨refs, !more.isEmpty⟩
  | t => refuse .controlApp t

def toWireLabel : Tree → Checked WireLabel
  | .node .wire _ [.leaf w, .leaf l] => do return ⟨← wireNumber w, unquoted l⟩
  | t => refuse .wire t

def toWireLabels : List Tree → Checked (List WireLabel)
  | [] => .ok []
  | .leaf w :: .leaf l :: more => do
    let wire ← wireNumber w
    let later ← toWireLabels more
    return ⟨wire, unquoted l⟩ :: later
  | t :: _ => refuse .wireLabelList t

def toDeclaration : Tree → Checked Declaration
  | .node .typeAssignment _ [.leaf w, .leaf type] => do
    let wire ← wireNumber w
    return ⟨wire, if type.text = Bytes.ofString "Cbit" then .cbit else .qbit⟩
  | t => refuse .typeAssignment t

def toDeclarations (list : Bytes) (seen : List Wire) : List Tree → Checked (List Declaration)
  | [] => .ok []
  | t :: ts => do
    let d ← toDeclaration t
    if d.wire ∈ seen then
      match t.firstToken with
      | some w => fault w w.text (.duplicateWire d.wire list)
      | none => refuse .typeAssignment t
    else
      let later ← toDeclarations list (d.wire :: seen) ts
      return d :: later

def toArity (list : Bytes) : Tree → Checked (List Declaration)
  | .node .arity _ parts => toDeclarations list [] parts
  | t => refuse .arity t

def toIoStatement : Tree → Checked (Direction × List Declaration)
  | .node .ioStatement _ [.leaf word, arity] => do
    let direction := if word.text = Bytes.ofString "Outputs" then Direction.outputs else .inputs
    return (direction, ← toArity direction.name arity)
  | t => refuse .ioStatement t

def toRepetitions : Tree → Checked Int64
  | .node .repetition _ [] => .ok 1
  | .node .repetition _ [.leaf t] =>
    match number? (t.text.drop 1) with
    | some n => if n < 1 then fault t t.text .badRepetition else .ok n
    | none => fault t t.text .badRepetition
  | t => refuse .repetition t

def toGate : Tree → Checked Gate
  | .node .qgate _ [.leaf name, stars, .leaf w, control] =>
    match GateOp.lookup (unquoted name) with
    | none => fault name (unquoted name) .unknownGate
    | some op => do
      let wire ← wireNumber w
      let control ← toControl control
      return .named op stars.isInverted wire control
  | .node .qrot _ [.leaf name, .leaf step, stars, .leaf w] =>
    match RotationOp.lookup (unquoted name) with
    | none => fault name (unquoted name) .unknownRotation
    | some op =>
      match Binary64.ofDecimal? (.ofText step.text) with
      | none => fault step step.text .timestepOutOfRange
      | some timestep => do
        let wire ← wireNumber w
        return .rotation op stars.isInverted timestep wire
  | .node .qinit _ [.leaf word, .leaf w] => do
    let wire ← wireNumber w
    return .init (word.text = Bytes.ofString "QInit1") wire []
  | .node .qinit _ [.leaf word, target] => do
    let labelled ← toWireLabel target
    return .init (word.text = Bytes.ofString "QInit1") labelled.wire labelled.label
  | .node .comment _ [.leaf text, .node .wireLabelList _ labels] => do
    return .comment (unquoted text) (← toWireLabels labels)
  | .node .subroutineCall _ [count, .leaf name, .leaf shape, stars, inputs, outputs, control] => do
    let repetitions ← toRepetitions count
    let inputs ← toWireList inputs
    let outputs ← toWireList outputs
    let control ← toControl control
    return .call ⟨repetitions, unquoted name, unquoted shape, stars.isInverted, inputs, outputs, control⟩
  | t => refuse .gate t

def toCircuit : Tree → Checked Circuit
  | .node .circuit opening (first :: more) =>
    match more.getLast? with
    | none => refuse .circuit (.node .circuit opening (first :: more))
    | some last => do
      let inputs ← toIoStatement first
      let outputs ← toIoStatement last
      let gates ← more.dropLast.mapM toGate
      return ⟨inputs.2, gates, outputs.2⟩
  | t => refuse .circuit t

def toSubroutine : Tree → Checked Subroutine
  | .node .subroutine _ [.leaf name, .leaf shape, .leaf word, body] => do
    let circuit ← toCircuit body
    let controllable :=
      if word.text = Bytes.ofString "yes" then Controllable.yes
      else if word.text = Bytes.ofString "no" then .no
      else .classically
    return ⟨unquoted name, unquoted shape, controllable, circuit⟩
  | t => refuse .subroutine t

def nameToken? : Tree → Option Token
  | .node .subroutine _ (.leaf name :: _) => some name
  | _ => none

def toSubroutines (seen : List Bytes) : List Tree → Checked (List Subroutine)
  | [] => .ok []
  | t :: ts => do
    let s ← toSubroutine t
    if s.name ∈ seen then
      match t.nameToken? with
      | some name => fault name s.name .duplicateSubroutine
      | none => refuse .subroutine t
    else
      let later ← toSubroutines (s.name :: seen) ts
      return s :: later

def toProgram : Tree → Checked Program
  | .node .program _ (main :: subs) => do
    let main ← toCircuit main
    let subs ← toSubroutines [] subs
    return .indexed main subs
  | t => refuse .program t

def callPositionsOf (statements : List Tree) : List Position :=
  (statements.filter (·.rule = .subroutineCall)).map pos

def callPositions : Tree → List Position
  | .node .program _ (main :: subs) =>
    callPositionsOf main.parts ++
      subs.flatMap fun s => callPositionsOf ((s.parts.getLast?.map parts).getD [])
  | _ => []

end Tree

end CircuitDesk
