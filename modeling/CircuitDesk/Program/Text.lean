import CircuitDesk.Program
import CircuitDesk.Timestep

/-!
The canonical text of programs: one statement a line, subroutines behind blank lines. Strings are written
as they are, since the language has no escapes.
-/
namespace CircuitDesk

def quoteText (s : Bytes) : Bytes := Bytes.quote :: s ++ [Bytes.quote]

def starText (inverted : Bool) : Bytes := if inverted then [42] else []

def Control.text (c : Control) : Bytes :=
  if c.isControlled then
    Bytes.ofString "controls=[" ++ Bytes.join "," (c.refs.map ControlRef.text) ++ "]" ++
      (if c.noControl then Bytes.ofString " with nocontrol" else [])
  else "nocontrol"

def WireLabel.text (l : WireLabel) : Bytes := Bytes.ofInt64 l.wire ++ ":" ++ quoteText l.label

def Call.controlText (c : Call) : Bytes :=
  if c.control.isControlled || c.control.noControl then Bytes.ofString " with " ++ c.control.text else []

def Call.repetitionText (c : Call) : Bytes :=
  if c.repetitions = 1 then [] else Bytes.ofString "(x" ++ Bytes.ofInt64 c.repetitions ++ ")"

def Call.text (c : Call) : Bytes :=
  Bytes.ofString "Subroutine" ++ c.repetitionText ++ "[" ++ quoteText c.name ++ ", shape " ++
    quoteText c.shape ++ "]" ++ starText c.inverted ++ " (" ++ Bytes.join "," (c.inputs.map Bytes.ofInt64) ++ ") -> (" ++
    Bytes.join "," (c.outputs.map Bytes.ofInt64) ++ ")" ++ c.controlText

def initLabelText (label : Bytes) : Bytes :=
  if label = [] then [] else Bytes.ofString ":" ++ quoteText label

def initWord (value : Bool) : Bytes := if value then "QInit1" else "QInit0"

def Gate.text : Gate → Bytes
  | .named op inverted w control =>
    Bytes.ofString "QGate[" ++ quoteText op.name ++ "]" ++ starText inverted ++ "(" ++
      Bytes.ofInt64 w ++ ") with " ++ control.text
  | .rotation op inverted step w =>
    Bytes.ofString "QRot[" ++ quoteText op.name ++ "," ++ Timestep.text step ++ "]" ++
      starText inverted ++ "(" ++ Bytes.ofInt64 w ++ ")"
  | .init value w label =>
    initWord value ++ "(" ++ Bytes.ofInt64 w ++ initLabelText label ++ ") with nocontrol"
  | .comment text labels =>
    Bytes.ofString "Comment[" ++ quoteText text ++ "](" ++
      Bytes.join ", " (labels.map WireLabel.text) ++ ")"
  | .call c => c.text

def Declaration.text (d : Declaration) : Bytes :=
  Bytes.ofString " " ++ Bytes.ofInt64 d.wire ++ ":" ++ d.type.name

def Declaration.line (direction : Direction) (ds : List Declaration) : Bytes :=
  direction.name ++ ":" ++ Bytes.join "," (ds.map Declaration.text) ++ [Bytes.newline]

def Circuit.text (c : Circuit) : Bytes :=
  Declaration.line .inputs c.inputs ++ c.gates.flatMap (fun g => g.text ++ [Bytes.newline]) ++
    Declaration.line .outputs c.outputs

def Subroutine.text (s : Subroutine) : Bytes :=
  Bytes.ofString "Subroutine: " ++ quoteText s.name ++ [Bytes.newline] ++ "Shape: " ++
    quoteText s.shape ++ [Bytes.newline] ++ "Controllable: " ++ s.controllable.name ++
    [Bytes.newline] ++ s.circuit.text

def Program.text (p : Program) : Bytes :=
  p.main.text ++ p.subroutines.flatMap fun s => Bytes.newline :: s.text

end CircuitDesk
