import CircuitDesk.Json
import CircuitDesk.Program.Text
import CircuitDesk.Source

namespace CircuitDesk

namespace Json

def wire (w : Wire) : Json := .int w.toInt

def listOrNull (js : List Json) : Json := if js.isEmpty then .null else .arr js

def ofDeclaration (d : Declaration) : Json := .obj [("Wire", wire d.wire), ("Type", .int d.type.number.toInt)]

def ofDeclarations (ds : List Declaration) : Json := .arr (ds.map ofDeclaration)

def ofControl (c : Control) : Json :=
  .obj [("Controlled", listOrNull (c.refs.map fun r =>
      .obj [("Wire", wire r.wire), ("Positive", .bool r.positive)])),
    ("NoControl", .bool c.noControl)]

def ofWireLabel (l : WireLabel) : Json := .obj [("Wire", wire l.wire), ("Label", .str l.label)]

def ofWires (ws : List Wire) : Json := listOrNull (ws.map wire)

def gateFields : Gate → Json
  | .named op inverted w control =>
    .obj [("Op", .int op.number.toInt), ("Inverted", .bool inverted), ("Wire", wire w),
      ("Control", ofControl control)]
  | .rotation op inverted step w =>
    .obj [("Op", .int op.number.toInt), ("Inverted", .bool inverted), ("Timestep", .float step),
      ("Wire", wire w)]
  | .init value w label => .obj [("Value", .bool value), ("Wire", wire w), ("Label", .str label)]
  | .comment text labels =>
    .obj [("Text", .str text), ("WireLabels", listOrNull (labels.map ofWireLabel))]
  | .call c =>
    .obj [("Repetitions", .int c.repetitions.toInt), ("Name", .str c.name), ("Shape", .str c.shape),
      ("Inverted", .bool c.inverted), ("Inputs", ofWires c.inputs), ("Outputs", ofWires c.outputs),
      ("Control", ofControl c.control)]

def ofGate (g : Gate) : Json :=
  .obj [("kind", .str g.kindName), ("source", .str g.text), ("fields", gateFields g)]

def ofCircuit (c : Circuit) : Json :=
  .obj [("inputs", ofDeclarations c.inputs), ("gates", .arr (c.gates.map ofGate)),
    ("outputs", ofDeclarations c.outputs)]

def ofSubroutine (s : Subroutine) : Json :=
  .obj [("name", .str s.name), ("shape", .str s.shape), ("controllable", .str s.controllable.name),
    ("circuit", ofCircuit s.circuit)]

def namesField (key : Bytes) (names : List Bytes) : List (Bytes × Json) :=
  if names.isEmpty then [] else [(key, .arr (names.map .str))]

def ofProgram (p : CheckedProgram) : Json :=
  let parts : List (Bytes × Json) :=
    [("circuit", ofCircuit p.program.main),
      ("subroutines", .arr (p.program.subroutines.map ofSubroutine))]
  .obj (parts ++ namesField "unresolved" p.report.unresolvedNames ++ namesField "recursive" p.report.recursive)

def directionNumber : Direction → Int
  | .inputs => 0
  | .outputs => 1

def ofRuleValue : RuleValue → Json
  | .program p => ofProgram p
  | .circuit c => ofCircuit c
  | .ioStatement d ds => .obj [("Direction", .int (directionNumber d)), ("Arity", ofDeclarations ds)]
  | .arity ds => ofDeclarations ds
  | .typeAssignment d => ofDeclaration d
  | .gate g => ofGate g
  | .wire l => ofWireLabel l
  | .intList ws => ofWires ws
  | .control c => ofControl c
  | .subroutine s => ofSubroutine s

end Json

end CircuitDesk
