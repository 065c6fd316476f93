import CircuitDesk.Display.Box
import CircuitDesk.Viewer

namespace CircuitDesk.Viewer

def styled (t : Bytes) : Bytes := Palette.layOut id t

def selectedCircuit (v : Viewer) (p : Program) : Circuit × Bytes :=
  match v.selectedSubroutine? with
  | none => (p.main, "Circuit: main")
  | some s =>
    (s.circuit, Bytes.ofString "Subroutine: " ++ s.name ++ "  shape " ++ s.shape ++ "  controllable " ++
      s.controllable.name)

def namesText (heading : Bytes) (names : List Bytes) : Bytes :=
  if names = [] then [] else Bytes.ofString "  " ++ styled (heading ++ ": " ++ Bytes.join ", " names)

def statusLine (v : Viewer) : Bytes :=
  match v.fault, v.program with
  | some e, _ => styled (e.kind?.getD "parse" ++ " error") ++ " " ++ e.message
  | none, none => "empty"
  | none, some p =>
    styled (Bytes.ofString "OK  " ++ Bytes.ofNat p.program.main.gates.length ++ " gates  " ++
        Bytes.ofNat p.program.subroutines.length ++ " subroutines") ++
      namesText "unresolved" p.report.unresolvedNames ++ namesText "recursive" p.report.recursive

def scrolledLines (v : Viewer) (c : Circuit) (width height : Nat) : List Bytes :=
  let lines := Bytes.lines (Bytes.unlines (Drawing.lines v.drawing c))
  let start := min v.scrollRow (lines.length - 1)
  let note : List Bytes :=
    if v.scrollColumn = 0 ∧ start = 0 then []
    else [Bytes.ofString "  ◀ scrolled to line " ++ Bytes.ofNat start ++ ", column " ++
      Bytes.ofNat v.scrollColumn]
  note ++ ((lines.drop start).take height).map fun l =>
    Display.truncate (Display.truncateLeft l v.scrollColumn) width "…"

def diagramText (v : Viewer) (width height : Int) : Bytes :=
  let body : List Bytes :=
    match v.program with
    | none => [styled "Circuit", "", styled "  nothing parsed yet"]
    | some p =>
      let (c, title) := v.selectedCircuit p.program
      [styled title, []] ++ v.scrolledLines c (max (width - 4) 1).toNat (max (height - 8) 1).toNat
  let note : Bytes := if v.note = [] then [] else Bytes.ofString "  │  " ++ styled v.note
  Bytes.unlines (body ++ [[], Bytes.ofString "  " ++ v.statusLine ++ note])

def diagramPanel (v : Viewer) (width height : Int) : List Bytes :=
  (Display.Box.mk width.toNat height.toNat 1 1).lines (v.diagramText width height)

def editorHeight (height : Int) : Nat := (max (height - 14) 4).toNat

def sourceTitle (v : Viewer) : Bytes :=
  Bytes.ofString "Source" ++ (if v.path = [] then [] else Bytes.ofString " " ++ v.path) ++
    (if v.focus = .source then Bytes.ofString " [ACTIVE]" else [])

def sourcePanel (v : Viewer) (width height : Int) : List Bytes :=
  let rows := editorHeight v.height
  let shown := v.editor.shownLines rows
  let full := shown ++ List.replicate (rows - shown.length) []
  (Display.Box.mk width.toNat height.toNat 1 1).lines (Bytes.unlines ([styled v.sourceTitle, []] ++ full))

def controlsText : Bytes :=
  Bytes.unlines [
    "Navigate: ↑↓/jk Scroll lines  ←→/hl Scroll columns  [ ] Prev/next circuit    c Pick circuit",
    "Actions:  Tab Switch focus  ^S Save formatted  q/^C Quit"]

def controlsPanel (width height : Int) : List Bytes :=
  (Display.Box.mk width.toNat height.toNat 0 1).lines controlsText

def pickerEntries (v : Viewer) : List (Bytes × Bytes) :=
  match v.program with
  | none => []
  | some p =>
    ("main", Bytes.ofNat p.program.main.gates.length ++ " gates") ::
      p.program.subroutines.map fun s =>
        (s.name, Bytes.ofNat s.circuit.gates.length ++ " gates, controllable " ++ s.controllable.name)

def pickerNameWidth : Nat := 18

def pickerRuleWidth : Nat := 42

def pickerLine (chosen : Bool) (name detail : Bytes) : Bytes :=
  let padded := name ++ Bytes.spaces (pickerNameWidth - Bytes.charCount name)
  Bytes.ofString (if chosen then " ▸ " else "   ") ++ styled padded ++ styled detail

def pickerPanel (v : Viewer) : List Bytes :=
  let head : List Bytes := ["Show Circuit", Bytes.times pickerRuleWidth "─"]
  let entries := v.pickerEntries.zipIdx.map fun ((name, detail), i) => pickerLine (i = v.pickerItem) name detail
  let foot : List Bytes := [" ↑↓ Select  ⏎ Ok  Esc ✕"]
  (Display.Box.mk 0 0 0 1).lines (Bytes.unlines (head ++ entries ++ foot))

def controlsHeight : Int := 6

def minPanelHeight : Int := 6

def pickerCorner : Int := 2

def view (v : Viewer) : List Bytes :=
  if v.width = 0 then ["Loading..."]
  else
    let sourceWidth := v.width.tdiv 3
    let panelHeight := max (v.height - controlsHeight - 2) minPanelHeight
    let top := Display.beside (v.diagramPanel (v.width - sourceWidth - 4) panelHeight)
      (v.sourcePanel sourceWidth panelHeight)
    let frame := Display.above top (controlsPanel (v.width - 4) (controlsHeight - 2))
    if v.focus = .picker then Display.overlayLines frame v.pickerPanel pickerCorner pickerCorner else frame

end CircuitDesk.Viewer
