import CircuitDesk.Program.OfTree
import CircuitDesk.Program.Report
import CircuitDesk.Token.Lexer
import CircuitDesk.Tree.Grammar

namespace CircuitDesk

inductive Fault where
  | lexical (e : Token.LexFault)
  | grammatical (e : Tree.SyntaxFault)
  | semantic (e : SemanticFault)
  | notEntry (rule : Rule)
deriving DecidableEq, Repr

def SemanticFault.message (e : SemanticFault) : Bytes :=
  e.pos.text ++ ": semantic error: " ++ e.cause.text ++
    (if e.literal = [] then [] else Bytes.ofString ": " ++ Bytes.quoted e.literal)

namespace Fault

def message : Fault → Bytes
  | lexical e => e.message
  | grammatical e => e.message
  | semantic e => e.message
  | notEntry r => Bytes.ofString "quipper: " ++ r.name ++ " is not a parse entry rule"

def kind? : Fault → Option Bytes
  | lexical _ => some "lex"
  | grammatical _ => some "syntax"
  | semantic _ => some "semantic"
  | notEntry _ => none

def pos? : Fault → Option Position
  | lexical e => some e.pos
  | grammatical e => some e.pos
  | semantic e => some e.pos
  | notEntry _ => none

end Fault

structure ReadOptions where
  file : Bytes
  strict : Bool
deriving DecidableEq, Repr

def ReadOptions.plain : ReadOptions := ⟨[], false⟩

structure CheckedProgram where
  program : Program
  report : Report
deriving DecidableEq, Repr

inductive RuleValue where
  | program (p : CheckedProgram)
  | circuit (c : Circuit)
  | ioStatement (direction : Direction) (ds : List Declaration)
  | arity (ds : List Declaration)
  | typeAssignment (d : Declaration)
  | gate (g : Gate)
  | wire (l : WireLabel)
  | intList (ws : List Wire)
  | control (c : Control)
  | subroutine (s : Subroutine)
deriving DecidableEq, Repr

namespace Source

def tree (rule : Rule) (file text : Bytes) : Except Fault Tree :=
  if rule.isEntry then
    match Token.lex file text with
    | .error e => .error (.lexical e)
    | .ok tokens => (Tree.parseTokens rule tokens).mapError .grammatical
  else .error (.notEntry rule)

def checkedProgram (strict : Bool) (t : Tree) : Checked CheckedProgram := do
  let p ← t.toProgram
  let r ← p.validate t.callPositions
  match strict, r.unresolved with
  | true, site :: _ => .error ⟨site.pos, site.name, .undefinedCall⟩
  | _, _ => return ⟨p, r⟩

def valueOfTree (rule : Rule) (strict : Bool) (t : Tree) : Checked RuleValue :=
  match rule with
  | .program => .program <$> checkedProgram strict t
  | .circuit => .circuit <$> t.toCircuit
  | .ioStatement => (fun (d, ds) => .ioStatement d ds) <$> t.toIoStatement
  | .arity => .arity <$> t.toArity "arity"
  | .typeAssignment => .typeAssignment <$> t.toDeclaration
  | .wire => .wire <$> t.toWireLabel
  | .intList => .intList <$> t.toWireList
  | .controlApp => .control <$> t.toControl
  | .subroutine => .subroutine <$> t.toSubroutine
  | _ => .gate <$> t.toGate

def value (rule : Rule) (o : ReadOptions) (text : Bytes) : Except Fault RuleValue := do
  let t ← tree rule o.file text
  (valueOfTree rule o.strict t).mapError .semantic

def parse (o : ReadOptions) (text : Bytes) : Except Fault CheckedProgram := do
  let t ← tree .program o.file text
  (checkedProgram o.strict t).mapError .semantic

end Source

end CircuitDesk
