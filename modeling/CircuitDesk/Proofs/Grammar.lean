import CircuitDesk.Tree.Grammar
import CircuitDesk.Proofs.Phrase.Lines
import CircuitDesk.Proofs.Phrase.Separated

/-!
The grammar of circuit files as languages of token words with their trees. Nothing here looks ahead: a
word belongs to a rule if it can be put together from words of its parts.
-/
namespace CircuitDesk.Grammar

open Token (Kind)
open CircuitDesk.Tree.Reading

def Integer : Phrase Token := Phrase.one (·.kind = .integer)

inductive Integers : Phrase (List Token)
  | none : Integers [] []
  | some {w ts} : Separated Integer w ts → Integers w ts

inductive Stars : Phrase (List Tree)
  | absent : Stars [] []
  | present {t} : t.is .punctuation "*" → Stars [t] [.leaf t]

inductive TypeAssignment : Phrase Tree
  | intro {wire colon type} : wire.kind = .integer → colon.is .punctuation ":" →
      type.is .keyword "Qbit" ∨ type.is .keyword "Cbit" →
      TypeAssignment [wire, colon, type] (.node .typeAssignment none [.leaf wire, .leaf type])

inductive Arity : Phrase Tree
  | intro {w items} : Separated TypeAssignment w items → Arity w (.node .arity none items)

inductive Declarations (word : Bytes) : Phrase Tree
  | intro {direction colon w list} : direction.is .keyword word → colon.is .punctuation ":" → Arity w list →
      Declarations word (direction :: colon :: w) (.node .ioStatement none [.leaf direction, list])

def IoStatement : Phrase Tree := Phrase.either (Declarations "Inputs") (Declarations "Outputs")

inductive IntList : Phrase Tree
  | intro {w ts} : Integers w ts → IntList w (.node .intList none (ts.map .leaf))

inductive ControlApp : Phrase Tree
  | none {word} : word.is .keyword "nocontrol" → ControlApp [word] (.node .controlApp none [.leaf word])
  | list {opening w refs close} : opening.is .opener "controls=[" → Integers w refs →
      close.is .punctuation "]" →
      ControlApp (opening :: w ++ [close])
        (.node .controlApp none [.node .signedList (some opening) (refs.map .leaf)])
  | listOnly {opening w refs close withWord word} : opening.is .opener "controls=[" → Integers w refs →
      close.is .punctuation "]" → withWord.is .keyword "with" → word.is .keyword "nocontrol" →
      ControlApp (opening :: w ++ [close, withWord, word])
        (.node .controlApp none [.node .signedList (some opening) (refs.map .leaf), .leaf word])

inductive QGate : Phrase Tree
  | intro {opening name close s stars left wire right withWord c control} :
      opening.is .opener "QGate[" → name.kind = .string → close.is .punctuation "]" → Stars s stars →
      left.is .punctuation "(" → wire.kind = .integer → right.is .punctuation ")" →
      withWord.is .keyword "with" → ControlApp c control →
      QGate (opening :: name :: close :: s ++ left :: wire :: right :: withWord :: c)
        (.node .qgate (some opening) [.leaf name, .node .inversion none stars, .leaf wire, control])

inductive QRot : Phrase Tree
  | intro {opening name comma step close s stars left wire right} :
      opening.is .opener "QRot[" → name.kind = .string → comma.is .punctuation "," → step.kind = .float →
      close.is .punctuation "]" → Stars s stars → left.is .punctuation "(" → wire.kind = .integer →
      right.is .punctuation ")" →
      QRot (opening :: name :: comma :: step :: close :: s ++ [left, wire, right])
        (.node .qrot (some opening) [.leaf name, .leaf step, .node .inversion none stars, .leaf wire])

inductive InitTarget : Phrase Tree
  | bare {wire} : wire.kind = .integer → InitTarget [wire] (.leaf wire)
  | labelled {wire colon label} : wire.kind = .integer → colon.is .punctuation ":" → label.kind = .string →
      InitTarget [wire, colon, label] (.node .wire none [.leaf wire, .leaf label])

inductive QInit : Phrase Tree
  | intro {word left w target right withWord control} :
      word.is .keyword "QInit0" ∨ word.is .keyword "QInit1" → left.is .punctuation "(" →
      InitTarget w target → right.is .punctuation ")" → withWord.is .keyword "with" →
      control.is .keyword "nocontrol" →
      QInit (word :: left :: w ++ [right, withWord, control]) (.node .qinit (some word) [.leaf word, target])

inductive LabelledWire : Phrase (Token × Token)
  | intro {wire colon label} : wire.kind = .integer → colon.is .punctuation ":" → label.kind = .string →
      LabelledWire [wire, colon, label] (wire, label)

inductive Wire : Phrase Tree
  | intro {w p} : LabelledWire w p → Wire w (.node .wire none [.leaf p.1, .leaf p.2])

inductive Labels : Phrase (List (Token × Token))
  | none : Labels [] []
  | some {w ps} : Separated LabelledWire w ps → Labels w ps

inductive Comment : Phrase Tree
  | intro {opening text close left w labels right} :
      opening.is .opener "Comment[" → text.kind = .string → close.is .punctuation "]" →
      left.is .punctuation "(" → Labels w labels → right.is .punctuation ")" →
      Comment (opening :: text :: close :: left :: w ++ [right])
        (.node .comment (some opening)
          [.leaf text, .node .wireLabelList none (labels.flatMap fun (w, l) => [.leaf w, .leaf l])])

inductive Repetition : Phrase (List Tree)
  | absent : Repetition [] []
  | present {left count right} : left.is .punctuation "(" → count.kind = .repetition →
      right.is .punctuation ")" → Repetition [left, count, right] [.leaf count]

inductive WiresInParens : Phrase Tree
  | intro {left w list right} : left.is .punctuation "(" → IntList w list → right.is .punctuation ")" →
      WiresInParens (left :: w ++ [right]) list

inductive CallControl : Phrase Tree
  | absent : CallControl [] (.node .controlApp none [])
  | present {withWord w control} : withWord.is .keyword "with" → ControlApp w control →
      CallControl (withWord :: w) control

inductive SubroutineCall : Phrase Tree
  | intro {opening r count s stars left name comma shapeWord shape right s' stars' i inputs arrow o outputs
        c control} :
      opening.is .keyword "Subroutine" → Repetition r count → Stars s stars → left.is .punctuation "[" →
      name.kind = .string → comma.is .punctuation "," → shapeWord.is .keyword "shape" →
      shape.kind = .string → right.is .punctuation "]" → Stars s' stars' → WiresInParens i inputs →
      arrow.kind = .arrow → WiresInParens o outputs → CallControl c control →
      SubroutineCall
        (opening :: r ++ s ++ left :: name :: comma :: shapeWord :: shape :: right :: s' ++ i ++ arrow :: o ++ c)
        (.node .subroutineCall (some opening)
          [.node .repetition none count, .leaf name, .leaf shape, .node .inversion none (stars ++ stars'),
            inputs, outputs, control])

inductive Gate : Phrase Tree
  | qgate {w t} : QGate w t → Gate w t
  | qrot {w t} : QRot w t → Gate w t
  | qinit {w t} : QInit w t → Gate w t
  | comment {w t} : Comment w t → Gate w t
  | call {w t} : SubroutineCall w t → Gate w t

/-- `circuit := iostatement gate* iostatement`, each on a line of its own, blank lines before and between
them. -/
inductive Circuit : Phrase Tree
  | intro {nl i inputs ls gates nl' o outputs} :
      Newlines nl → Declarations "Inputs" i inputs → Lines Gate ls gates → Newlines nl' → nl' ≠ [] →
      Declarations "Outputs" o outputs →
      Circuit (nl ++ i ++ ls ++ nl' ++ o) (.node .circuit none (inputs :: gates ++ [outputs]))

/-- `subroutine := "Subroutine:" string "Shape:" string "Controllable:" ("yes" | "no" | "classically")
circuit`. The fields may stand on one line, the body starts on the next. -/
inductive Subroutine : Phrase Tree
  | intro {opening name nl shapeWord shape nl' controlWord controllable nl'' b body} :
      opening.is .header "Subroutine:" → name.kind = .string → Newlines nl → shapeWord.is .header "Shape:" →
      shape.kind = .string → Newlines nl' → controlWord.is .header "Controllable:" →
      (controllable.is .keyword "yes" ∨ controllable.is .keyword "no" ∨
        controllable.is .keyword "classically") →
      Newlines nl'' → nl'' ≠ [] → Circuit b body →
      Subroutine
        (opening :: name :: nl ++ shapeWord :: shape :: nl' ++ controlWord :: controllable :: nl'' ++ b)
        (.node .subroutine (some opening) [.leaf name, .leaf shape, .leaf controllable, body])

inductive Program : Phrase Tree
  | intro {c main ls subs} : Circuit c main → Lines Subroutine ls subs →
      Program (c ++ ls) (.node .program none (main :: subs))

def Derives : Rule → Phrase Tree
  | .program => Program
  | .circuit => Circuit
  | .ioStatement => IoStatement
  | .arity => Arity
  | .typeAssignment => TypeAssignment
  | .gate => Gate
  | .qgate => QGate
  | .qrot => QRot
  | .qinit => QInit
  | .comment => Comment
  | .wire => Wire
  | .subroutineCall => SubroutineCall
  | .intList => IntList
  | .controlApp => ControlApp
  | .subroutine => Subroutine
  | _ => fun _ _ => False

end CircuitDesk.Grammar
