import CircuitDesk.Editor.Command
import CircuitDesk.Files
import CircuitDesk.Program.Text
import CircuitDesk.Settings
import CircuitDesk.Source

/-!
The interactive viewer as a state that answers messages. The source is read again on every edit; while it does
not parse, the last program that did is kept.
-/
namespace CircuitDesk

inductive Focus where
  | diagram
  | source
  | picker
deriving DecidableEq, Repr

structure Viewer where
  reading : ReadOptions
  drawing : Drawing.Options
  editor : Editor
  focus : Focus
  width : Int
  height : Int
  lastSource : Bytes
  note : Bytes
  program : Option CheckedProgram
  fault : Option Fault
  /-- Zero is the main circuit, and `i + 1` the subroutine `i`. -/
  selected : Nat
  scrollRow : Nat
  scrollColumn : Nat
  pickerItem : Nat
deriving DecidableEq, Repr

structure KeyPress where
  name : Bytes
  typed : List Char
deriving DecidableEq, Repr

namespace KeyPress

def named (name : Bytes) : KeyPress := ⟨name, []⟩

def ofText (t : Bytes) : KeyPress := ⟨t, Bytes.chars t⟩

end KeyPress

inductive Message where
  | key (k : KeyPress)
  | size (width height : Int)
deriving DecidableEq, Repr

namespace Viewer

def scrollStep : Nat := 8

def firstEditorWidth : Nat := 40

def minEditorWidth : Nat := 20

def editorWidth (width : Int) : Int := max (width.tdiv 3 - 6) minEditorWidth

def path (v : Viewer) : Bytes := v.reading.file

def subroutines (v : Viewer) : List Subroutine := (v.program.map fun p => p.program.subroutines).getD []

def circuitCount (v : Viewer) : Nat :=
  match v.program with
  | none => 0
  | some p => p.program.subroutines.length + 1

def selectedSubroutine? (v : Viewer) : Option Subroutine :=
  if v.selected = 0 then none else v.subroutines[v.selected - 1]?

def selectedName (v : Viewer) : Bytes := (v.selectedSubroutine?.map fun s => s.name).getD []

/-- Takes over what a text was read as. A selection beyond the new program moves to its last circuit. -/
def accept (v : Viewer) : Except Fault CheckedProgram → Viewer
  | .error e => { v with fault := some e }
  | .ok p =>
    { v with program := some p, fault := none, selected := min v.selected p.program.subroutines.length }

/-- Reads the source unless it is the one that was read last. -/
def reparse (v : Viewer) : Viewer :=
  let t := v.editor.text
  if t = v.lastSource ∧ (v.program.isSome ∨ v.fault.isSome) then v
  else { v with lastSource := t }.accept (Source.parse v.reading t)

def new (path source : Bytes) (s : Settings) : Viewer :=
  reparse {
    reading := ⟨path, s.strictCalls⟩
    drawing := s.drawing
    editor := (Editor.empty firstEditorWidth).setText source
    focus := .diagram
    width := 0
    height := 0
    lastSource := []
    note := []
    program := none
    fault := none
    selected := 0
    scrollRow := 0
    scrollColumn := 0
    pickerItem := 0 }

def select (v : Viewer) (i : Int) : Viewer :=
  if v.circuitCount = 0 then v
  else { v with selected := (i % v.circuitCount).toNat, scrollRow := 0, scrollColumn := 0 }

def save (v : Viewer) (fs : Files) : Viewer × Files :=
  if v.path = [] then ({ v with note := "Save error: no file name" }, fs)
  else match v.fault, v.program with
    | none, some p =>
      let t := p.program.text
      let w := fs.write v.path t
      match w.error? with
      | some e => ({ v with note := Bytes.ofString "Save error: " ++ e.message }, w.files fs)
      | none =>
        ({ v with
          editor := v.editor.setText t
          lastSource := t
          note := Bytes.ofString "Saved " ++ v.path }, w.files fs)
    | _, _ => ({ v with note := "Save error: source does not parse" }, fs)

def openPicker (v : Viewer) : Viewer :=
  if v.circuitCount = 0 then v else { v with focus := .picker, pickerItem := v.selected }

def diagramKey (v : Viewer) (name : Bytes) : Viewer :=
  if name = "tab" then { v with focus := .source }
  else if name = "]" then v.select (v.selected + 1)
  else if name = "[" then v.select (v.selected - 1)
  else if name = "c" then v.openPicker
  else if name = "up" ∨ name = "k" then { v with scrollRow := v.scrollRow - 1 }
  else if name = "down" ∨ name = "j" then { v with scrollRow := v.scrollRow + 1 }
  else if name = "left" ∨ name = "h" then { v with scrollColumn := v.scrollColumn - scrollStep }
  else if name = "right" ∨ name = "l" then { v with scrollColumn := v.scrollColumn + scrollStep }
  else if name = "home" then { v with scrollRow := 0, scrollColumn := 0 }
  else v

def pickerKey (v : Viewer) (name : Bytes) : Viewer :=
  if name = "esc" then { v with focus := .diagram }
  else if name = "up" ∨ name = "k" then { v with pickerItem := v.pickerItem - 1 }
  else if name = "down" ∨ name = "j" then
    if v.pickerItem + 1 < v.circuitCount then { v with pickerItem := v.pickerItem + 1 } else v
  else if name = "enter" then { v.select v.pickerItem with focus := .diagram }
  else v

def editorKey (v : Viewer) (k : KeyPress) : Viewer :=
  let edit := (Editor.command? k.name).getD (·.insert k.typed)
  { v with editor := edit v.editor }.reparse

structure Step where
  viewer : Viewer
  files : Files
  quit : Bool
deriving DecidableEq, Repr

def saveStep (v : Viewer) (fs : Files) : Step := ⟨(v.save fs).1, (v.save fs).2, false⟩

/-- Every key first removes the note on the last one. -/
def press (v : Viewer) (fs : Files) (k : KeyPress) : Step :=
  let v := { v with note := [] }
  if k.name = "ctrl+c" then ⟨v, fs, true⟩
  else match v.focus with
    | .diagram =>
      if k.name = "q" then ⟨v, fs, true⟩
      else if k.name = "ctrl+s" then v.saveStep fs
      else ⟨v.diagramKey k.name, fs, false⟩
    | .picker => ⟨v.pickerKey k.name, fs, false⟩
    | .source =>
      if k.name = "tab" then ⟨{ v with focus := .diagram }, fs, false⟩
      else if k.name = "ctrl+s" then v.reparse.saveStep fs
      else ⟨v.editorKey k, fs, false⟩

def resize (v : Viewer) (width height : Int) : Viewer :=
  { v with width := width, height := height, editor := v.editor.setWidth (editorWidth width) }

def update (v : Viewer) (fs : Files) : Message → Step
  | .key k => v.press fs k
  | .size width height => ⟨v.resize width height, fs, false⟩

def run (v : Viewer) (fs : Files) : List Message → Viewer × Files
  | [] => (v, fs)
  | m :: ms => run (v.update fs m).viewer (v.update fs m).files ms

end Viewer

end CircuitDesk
