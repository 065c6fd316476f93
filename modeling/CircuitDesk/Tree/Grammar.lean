import CircuitDesk.Tree.Reading

/-!
The rules of the grammar as readings. Each takes the tokens of one rule and gives its tree. Which rule
applies, whether an optional part is there and where a list ends is always decided by the token in front.
-/
namespace CircuitDesk.Tree

open Token (Kind)
open Reading

def star : Reading (List Tree) := do
  match ← takeIf (·.is .punctuation "*") with
  | some t => return [.leaf t]
  | none => return []

/-- `typeassignment := int ":" ("Qbit" | "Cbit")` -/
def typeAssignment : Reading Tree := do
  let wire ← expectKind .typeAssignment .integer
  let _ ← mark .typeAssignment ":"
  let type ← require .typeAssignment (.oneOf ["Qbit"] "Cbit")
    fun t => t.is .keyword "Qbit" || t.is .keyword "Cbit"
  return .node .typeAssignment none [.leaf wire, .leaf type]

theorem neverGrows_typeAssignment : NeverGrows typeAssignment :=
  Shrinks.neverGrows <| (shrinks_expectKind _ _).bind fun _ =>
    (shrinks_mark _ _).neverGrows.bind fun _ =>
      (shrinks_require _ _ _).neverGrows.bind fun _ => neverGrows_pure _

/-- `arity := typeassignment ("," typeassignment)*` -/
def arity : Reading Tree := do
  let items ← commaSeparated typeAssignment neverGrows_typeAssignment
  return .node .arity none items

theorem neverGrows_arity : NeverGrows arity :=
  (neverGrows_commaSeparated _ _).bind fun _ => neverGrows_pure _

/-- `iostatement := ("Inputs" | "Outputs") ":" arity` -/
def ioStatement : Reading Tree := do
  let direction ← require .ioStatement (.oneOf ["Inputs"] "Outputs")
    fun t => t.is .keyword "Inputs" || t.is .keyword "Outputs"
  let _ ← mark .ioStatement ":"
  let list ← arity
  return .node .ioStatement none [.leaf direction, list]

theorem shrinks_ioStatement : Shrinks ioStatement :=
  (shrinks_require _ _ _).bind fun _ => (shrinks_mark _ _).neverGrows.bind fun _ =>
    neverGrows_arity.bind fun _ => neverGrows_pure _

/-- `int_list := (int ("," int)*)?` -/
def intList : Reading Tree := do
  if (← peek).kind = .integer then
    let items ← commaSeparated (expectKind .intList .integer) (shrinks_expectKind _ _).neverGrows
    return .node .intList none (items.map .leaf)
  else return .node .intList none []

theorem neverGrows_intList : NeverGrows intList :=
  neverGrows_peek.bind fun t => by
    split
    · exact (neverGrows_commaSeparated _ _).bind fun _ => neverGrows_pure _
    · exact neverGrows_pure _

def controlRefs : Reading (List Token) := do
  if (← peek).is .punctuation "]" then return []
  else commaSeparated (expectKind .controlApp .integer) (shrinks_expectKind _ _).neverGrows

theorem neverGrows_controlRefs : NeverGrows controlRefs :=
  neverGrows_peek.bind fun t => by
    split
    · exact neverGrows_pure _
    · exact neverGrows_commaSeparated _ _

/-- `control_app := "nocontrol" | "controls=[" signed_list "]" ("with" "nocontrol")?`. The `with` before
it belongs to the statement around it. -/
def controlApp : Reading Tree := do
  match ← takeIf (·.is .keyword "nocontrol") with
  | some t => return .node .controlApp none [.leaf t]
  | none =>
    let opening ← require .controlApp (.oneOf ["nocontrol"] "controls=[")
      (·.is .opener "controls=[")
    let refs ← controlRefs
    let _ ← mark .controlApp "]"
    let list := Tree.node .signedList (some opening) (refs.map .leaf)
    match ← takeIf (·.is .keyword "with") with
    | none => return .node .controlApp none [list]
    | some _ =>
      let word ← expect .controlApp .keyword "nocontrol"
      return .node .controlApp none [list, .leaf word]

theorem neverGrows_controlApp : NeverGrows controlApp :=
  (neverGrows_takeIf _).bind fun o => by
    split
    · exact neverGrows_pure _
    · refine (shrinks_require _ _ _).neverGrows.bind fun _ => neverGrows_controlRefs.bind fun _ =>
        (shrinks_mark _ _).neverGrows.bind fun _ => (neverGrows_takeIf _).bind fun o => ?_
      split
      · exact neverGrows_pure _
      · exact (shrinks_expect _ _ _).neverGrows.bind fun _ => neverGrows_pure _

theorem neverGrows_star : NeverGrows star :=
  (neverGrows_takeIf _).bind fun o => by split <;> exact neverGrows_pure _

/-- `qgate := "QGate[" string "]" inversion "(" int ")" "with" control_app` -/
def qgate : Reading Tree := do
  let opening ← expect .qgate .opener "QGate["
  let name ← expectKind .qgate .string
  let _ ← mark .qgate "]"
  let stars ← star
  let _ ← mark .qgate "("
  let wire ← expectKind .qgate .integer
  let _ ← mark .qgate ")"
  let _ ← expect .qgate .keyword "with"
  let control ← controlApp
  return .node .qgate (some opening) [.leaf name, .node .inversion none stars, .leaf wire, control]

theorem shrinks_qgate : Shrinks qgate :=
  (shrinks_expect _ _ _).bind fun _ => (shrinks_expectKind _ _).neverGrows.bind fun _ =>
    (shrinks_mark _ _).neverGrows.bind fun _ => neverGrows_star.bind fun _ =>
      (shrinks_mark _ _).neverGrows.bind fun _ => (shrinks_expectKind _ _).neverGrows.bind fun _ =>
        (shrinks_mark _ _).neverGrows.bind fun _ => (shrinks_expect _ _ _).neverGrows.bind fun _ =>
          neverGrows_controlApp.bind fun _ => neverGrows_pure _

/-- `qrot := "QRot[" string "," float "]" inversion "(" int ")"` -/
def qrot : Reading Tree := do
  let opening ← expect .qrot .opener "QRot["
  let name ← expectKind .qrot .string
  let _ ← mark .qrot ","
  let timestep ← expectKind .qrot .float
  let _ ← mark .qrot "]"
  let stars ← star
  let _ ← mark .qrot "("
  let wire ← expectKind .qrot .integer
  let _ ← mark .qrot ")"
  return .node .qrot (some opening) [.leaf name, .leaf timestep, .node .inversion none stars, .leaf wire]

theorem shrinks_qrot : Shrinks qrot :=
  (shrinks_expect _ _ _).bind fun _ => (shrinks_expectKind _ _).neverGrows.bind fun _ =>
    (shrinks_mark _ _).neverGrows.bind fun _ => (shrinks_expectKind _ _).neverGrows.bind fun _ =>
      (shrinks_mark _ _).neverGrows.bind fun _ => neverGrows_star.bind fun _ =>
        (shrinks_mark _ _).neverGrows.bind fun _ => (shrinks_expectKind _ _).neverGrows.bind fun _ =>
          (shrinks_mark _ _).neverGrows.bind fun _ => neverGrows_pure _

def initTarget : Reading Tree := do
  let wire ← expectKind .qinit .integer
  match ← takeIf (·.is .punctuation ":") with
  | none => return .leaf wire
  | some _ =>
    let label ← expectKind .qinit .string
    return .node .wire none [.leaf wire, .leaf label]

theorem neverGrows_initTarget : NeverGrows initTarget :=
  (shrinks_expectKind _ _).neverGrows.bind fun _ => (neverGrows_takeIf _).bind fun o => by
    split
    · exact neverGrows_pure _
    · exact (shrinks_expectKind _ _).neverGrows.bind fun _ => neverGrows_pure _

/-- `qinit := ("QInit0" | "QInit1") "(" (wire | int) ")" "with" "nocontrol"` -/
def qinit : Reading Tree := do
  let word ← require .qinit (.oneOf ["QInit0"] "QInit1")
    fun t => t.is .keyword "QInit0" || t.is .keyword "QInit1"
  let _ ← mark .qinit "("
  let target ← initTarget
  let _ ← mark .qinit ")"
  let _ ← expect .qinit .keyword "with"
  let _ ← expect .qinit .keyword "nocontrol"
  return .node .qinit (some word) [.leaf word, target]

theorem shrinks_qinit : Shrinks qinit :=
  (shrinks_require _ _ _).bind fun _ => (shrinks_mark _ _).neverGrows.bind fun _ =>
    neverGrows_initTarget.bind fun _ => (shrinks_mark _ _).neverGrows.bind fun _ =>
      (shrinks_expect _ _ _).neverGrows.bind fun _ => (shrinks_expect _ _ _).neverGrows.bind fun _ =>
        neverGrows_pure _

def labelledWire : Reading (Token × Token) := do
  let wire ← expectKind .wire .integer
  let _ ← mark .wire ":"
  let label ← expectKind .wire .string
  return (wire, label)

theorem neverGrows_labelledWire : NeverGrows labelledWire :=
  (shrinks_expectKind _ _).neverGrows.bind fun _ => (shrinks_mark _ _).neverGrows.bind fun _ =>
    (shrinks_expectKind _ _).neverGrows.bind fun _ => neverGrows_pure _

/-- `wire := int ":" string` -/
def wire : Reading Tree := do
  let (w, label) ← labelledWire
  return .node .wire none [.leaf w, .leaf label]

def commentLabels : Reading (List (Token × Token)) := do
  if (← peek).is .punctuation ")" then return []
  else commaSeparated labelledWire neverGrows_labelledWire

theorem neverGrows_commentLabels : NeverGrows commentLabels :=
  neverGrows_peek.bind fun t => by
    split
    · exact neverGrows_pure _
    · exact neverGrows_commaSeparated _ _

/-- `comment := "Comment[" string "]" "(" (wire ("," wire)*)? ")"`. The labels are kept flat: wire, label,
wire, label. -/
def comment : Reading Tree := do
  let opening ← expect .comment .opener "Comment["
  let text ← expectKind .comment .string
  let _ ← mark .comment "]"
  let _ ← mark .comment "("
  let labels ← commentLabels
  let _ ← mark .comment ")"
  return .node .comment (some opening)
    [.leaf text, .node .wireLabelList none (labels.flatMap fun (w, l) => [.leaf w, .leaf l])]

theorem shrinks_comment : Shrinks comment :=
  (shrinks_expect _ _ _).bind fun _ => (shrinks_expectKind _ _).neverGrows.bind fun _ =>
    (shrinks_mark _ _).neverGrows.bind fun _ => (shrinks_mark _ _).neverGrows.bind fun _ =>
      neverGrows_commentLabels.bind fun _ => (shrinks_mark _ _).neverGrows.bind fun _ =>
        neverGrows_pure _

def repetition : Reading (List Tree) := do
  match ← takeIf (·.is .punctuation "(") with
  | none => return []
  | some _ =>
    let count ← expectKind .subroutineCall .repetition
    let _ ← mark .subroutineCall ")"
    return [.leaf count]

theorem neverGrows_repetition : NeverGrows repetition :=
  (neverGrows_takeIf _).bind fun o => by
    split
    · exact neverGrows_pure _
    · exact (shrinks_expectKind _ _).neverGrows.bind fun _ =>
        (shrinks_mark _ _).neverGrows.bind fun _ => neverGrows_pure _

def callControl : Reading Tree := do
  match ← takeIf (·.is .keyword "with") with
  | none => return .node .controlApp none []
  | some _ => controlApp

theorem neverGrows_callControl : NeverGrows callControl :=
  (neverGrows_takeIf _).bind fun o => by
    split
    · exact neverGrows_pure _
    · exact neverGrows_controlApp

def wiresInParens : Reading Tree := do
  let _ ← mark .subroutineCall "("
  let list ← intList
  let _ ← mark .subroutineCall ")"
  return list

theorem neverGrows_wiresInParens : NeverGrows wiresInParens :=
  (shrinks_mark _ _).neverGrows.bind fun _ => neverGrows_intList.bind fun _ =>
    (shrinks_mark _ _).neverGrows.bind fun _ => neverGrows_pure _

/-- `subroutine_call := "Subroutine" repetition inversion "[" string "," "shape" string "]" inversion
"(" int_list ")" "->" "(" int_list ")" ("with" control_app)?`. A star in either place inverts the call;
one node holds every star seen. -/
def subroutineCall : Reading Tree := do
  let opening ← expect .subroutineCall .keyword "Subroutine"
  let count ← repetition
  let stars ← star
  let _ ← mark .subroutineCall "["
  let name ← expectKind .subroutineCall .string
  let _ ← mark .subroutineCall ","
  let _ ← expect .subroutineCall .keyword "shape"
  let shape ← expectKind .subroutineCall .string
  let _ ← mark .subroutineCall "]"
  let moreStars ← star
  let inputs ← wiresInParens
  let _ ← expectKind .subroutineCall .arrow
  let outputs ← wiresInParens
  let control ← callControl
  return .node .subroutineCall (some opening)
    [.node .repetition none count, .leaf name, .leaf shape, .node .inversion none (stars ++ moreStars),
      inputs, outputs, control]

theorem shrinks_subroutineCall : Shrinks subroutineCall :=
  (shrinks_expect _ _ _).bind fun _ => neverGrows_repetition.bind fun _ => neverGrows_star.bind fun _ =>
    (shrinks_mark _ _).neverGrows.bind fun _ => (shrinks_expectKind _ _).neverGrows.bind fun _ =>
      (shrinks_mark _ _).neverGrows.bind fun _ => (shrinks_expect _ _ _).neverGrows.bind fun _ =>
        (shrinks_expectKind _ _).neverGrows.bind fun _ => (shrinks_mark _ _).neverGrows.bind fun _ =>
          neverGrows_star.bind fun _ => neverGrows_wiresInParens.bind fun _ =>
            (shrinks_expectKind _ _).neverGrows.bind fun _ => neverGrows_wiresInParens.bind fun _ =>
              neverGrows_callControl.bind fun _ => neverGrows_pure _

/-- `gate := qgate | qrot | qinit | comment | subroutine_call`, chosen by the first token. The chosen
statement stands for itself. -/
def gate : Reading Tree := do
  let t ← peek
  if t.is .opener "QGate[" then qgate
  else if t.is .opener "QRot[" then qrot
  else if t.is .keyword "QInit0" || t.is .keyword "QInit1" then qinit
  else if t.is .opener "Comment[" then comment
  else if t.is .keyword "Subroutine" then subroutineCall
  else fail .gate .gate

theorem shrinks_gate : Shrinks gate :=
  neverGrows_peek.bind_shrinks fun t => by
    split
    · exact shrinks_qgate
    split
    · exact shrinks_qrot
    split
    · exact shrinks_qinit
    split
    · exact shrinks_comment
    split
    · exact shrinks_subroutineCall
    · exact shrinks_fail _ _

def gateLine : Reading Tree := do
  let g ← gate
  endStatement .circuit
  return g

theorem shrinks_gateLine : Shrinks gateLine :=
  shrinks_gate.bind fun _ => (neverGrows_endStatement _).bind fun _ => neverGrows_pure _

/-- `circuit := iostatement gate* iostatement`. It opens with `Inputs` and runs to the first `Outputs`. -/
def circuit : Reading Tree := do
  skipNewlines
  if (← peek).is .keyword "Inputs" then
    let inputs ← ioStatement
    endStatement .circuit
    let gates ← repeatUntil (·.is .keyword "Outputs") gateLine shrinks_gateLine
    let outputs ← ioStatement
    endStatement .circuit
    return .node .circuit none (inputs :: gates ++ [outputs])
  else fail .circuit (.literal "Inputs")

theorem neverGrows_circuit : NeverGrows circuit :=
  neverGrows_skipNewlines.bind fun _ => neverGrows_peek.bind fun t => by
    split
    · exact shrinks_ioStatement.neverGrows.bind fun _ => (neverGrows_endStatement _).bind fun _ =>
        (neverGrows_repeatUntil _ _ _).bind fun _ => shrinks_ioStatement.neverGrows.bind fun _ =>
          (neverGrows_endStatement _).bind fun _ => neverGrows_pure _
    · exact (shrinks_fail _ _).neverGrows

/-- `subroutine := "Subroutine:" string "Shape:" string "Controllable:" ("yes" | "no" | "classically")
circuit` -/
def subroutine : Reading Tree := do
  let opening ← expect .subroutine .header "Subroutine:"
  let name ← expectKind .subroutine .string
  skipNewlines
  let _ ← expect .subroutine .header "Shape:"
  let shape ← expectKind .subroutine .string
  skipNewlines
  let _ ← expect .subroutine .header "Controllable:"
  let controllable ← require .subroutine (.oneOf ["yes", "no"] "classically")
    fun t => t.is .keyword "yes" || t.is .keyword "no" || t.is .keyword "classically"
  endStatement .subroutine
  let body ← circuit
  return .node .subroutine (some opening) [.leaf name, .leaf shape, .leaf controllable, body]

theorem shrinks_subroutine : Shrinks subroutine :=
  (shrinks_expect _ _ _).bind fun _ => (shrinks_expectKind _ _).neverGrows.bind fun _ =>
    neverGrows_skipNewlines.bind fun _ => (shrinks_expect _ _ _).neverGrows.bind fun _ =>
      (shrinks_expectKind _ _).neverGrows.bind fun _ => neverGrows_skipNewlines.bind fun _ =>
        (shrinks_expect _ _ _).neverGrows.bind fun _ => (shrinks_require _ _ _).neverGrows.bind fun _ =>
          (neverGrows_endStatement _).bind fun _ => neverGrows_circuit.bind fun _ => neverGrows_pure _

/-- `program := circuit subroutine*` -/
def program : Reading Tree := do
  let main ← circuit
  let subs ← repeatUntil (·.kind = .endOfInput) subroutine shrinks_subroutine
  return .node .program none (main :: subs)

def reading : Rule → Reading Tree
  | .program => program
  | .circuit => circuit
  | .ioStatement => ioStatement
  | .arity => arity
  | .typeAssignment => typeAssignment
  | .gate => gate
  | .qgate => qgate
  | .qrot => qrot
  | .qinit => qinit
  | .comment => comment
  | .wire => wire
  | .subroutineCall => subroutineCall
  | .intList => intList
  | .controlApp => controlApp
  | .subroutine => subroutine
  | r => fail r .entryRule

def parseTokens (rule : Rule) (tokens : List Token) : Except SyntaxFault Tree :=
  let whole : Reading Tree := do
    skipNewlines
    let tree ← reading rule
    skipNewlines
    if (← peek).kind = .endOfInput then return tree else fail rule .endOfInput
  (whole tokens).map (·.1)

end CircuitDesk.Tree
