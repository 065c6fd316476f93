import CircuitDesk.Proofs.Lexemes

namespace CircuitDesk

open Token (Tile)
open Token.Tile (flat)

namespace Token.Tile

def blank : Tile := ⟨none, " "⟩

def newline : Tile := ⟨some .newline, [Bytes.newline]⟩

def punctuation (s : Bytes) : Tile := ⟨some .punctuation, s⟩

def keyword (s : Bytes) : Tile := ⟨some .keyword, s⟩

def opener (s : Bytes) : Tile := ⟨some .opener, s⟩

def header (s : Bytes) : Tile := ⟨some .header, s⟩

def arrow : Tile := ⟨some .arrow, "->"⟩

def string (s : Bytes) : Tile := ⟨some .string, quoteText s⟩

def integer (s : Bytes) : Tile := ⟨some .integer, s⟩

def ofWire (w : Wire) : Tile := integer (Bytes.ofInt64 w)

def joined (sep : List Tile) : List (List Tile) → List Tile
  | [] => []
  | ts :: tss => ts ++ tss.flatMap (sep ++ ·)

theorem flat_joined (sep : List Tile) (tss : List (List Tile)) :
    flat (joined sep tss) = Bytes.join (flat sep) (tss.map flat) := by
  cases tss with
  | nil => rfl
  | cons ts tss =>
    induction tss generalizing ts with
    | nil => simp [joined, Bytes.join]
    | cons us tss ih =>
      have hlater := ih us
      simp only [joined, Token.flat_append] at hlater
      simp only [joined, List.flatMap_cons, Token.flat_append, List.append_assoc, hlater, List.map_cons,
        Bytes.join]

end Token.Tile

open Token.Tile

def starTiles (inverted : Bool) : List Tile := if inverted then [punctuation "*"] else []

def Control.tiles (c : Control) : List Tile :=
  if c.isControlled then
    opener "controls=[" :: joined [punctuation ","] (c.refs.map fun r => [integer r.text]) ++ punctuation "]" ::
      (if c.noControl then [blank, keyword "with", blank, keyword "nocontrol"] else [])
  else [keyword "nocontrol"]

def WireLabel.tiles (l : WireLabel) : List Tile := [ofWire l.wire, punctuation ":", string l.label]

def Call.controlTiles (c : Call) : List Tile :=
  if c.control.isControlled || c.control.noControl then
    blank :: keyword "with" :: blank :: c.control.tiles
  else []

def Call.repetitionTiles (c : Call) : List Tile :=
  if c.repetitions = 1 then []
  else [punctuation "(", ⟨some .repetition, 120 :: Bytes.ofInt64 c.repetitions⟩, punctuation ")"]

def wiresTiles (ws : List Wire) : List Tile :=
  punctuation "(" :: joined [punctuation ","] (ws.map fun w => [ofWire w]) ++ [punctuation ")"]

def Call.tiles (c : Call) : List Tile :=
  keyword "Subroutine" :: c.repetitionTiles ++ punctuation "[" :: string c.name :: punctuation "," :: blank ::
    keyword "shape" :: blank :: string c.shape :: punctuation "]" :: starTiles c.inverted ++ blank ::
    wiresTiles c.inputs ++ blank :: arrow :: blank :: wiresTiles c.outputs ++ c.controlTiles

def initLabelTiles (label : Bytes) : List Tile :=
  if label = [] then [] else [punctuation ":", string label]

def Gate.tiles : Gate → List Tile
  | .named op inverted w control =>
    opener "QGate[" :: string op.name :: punctuation "]" :: starTiles inverted ++ punctuation "(" ::
      ofWire w :: punctuation ")" :: blank :: keyword "with" :: blank :: control.tiles
  | .rotation op inverted step w =>
    opener "QRot[" :: string op.name :: punctuation "," :: ⟨some .float, Timestep.text step⟩ :: punctuation "]" ::
      starTiles inverted ++ [punctuation "(", ofWire w, punctuation ")"]
  | .init value w label =>
    keyword (initWord value) :: punctuation "(" :: ofWire w :: initLabelTiles label ++
      [punctuation ")", blank, keyword "with", blank, keyword "nocontrol"]
  | .comment text labels =>
    opener "Comment[" :: string text :: punctuation "]" :: punctuation "(" ::
      joined [punctuation ",", blank] (labels.map WireLabel.tiles) ++ [punctuation ")"]
  | .call c => c.tiles

def Declaration.tiles (d : Declaration) : List Tile :=
  [blank, ofWire d.wire, punctuation ":", keyword d.type.name]

def Declaration.lineTiles (direction : Direction) (ds : List Declaration) : List Tile :=
  keyword direction.name :: punctuation ":" :: joined [punctuation ","] (ds.map Declaration.tiles)

def Circuit.tiles (c : Circuit) : List Tile :=
  Declaration.lineTiles .inputs c.inputs ++ c.gates.flatMap (fun g => newline :: g.tiles) ++
    newline :: Declaration.lineTiles .outputs c.outputs

def Subroutine.tiles (s : Subroutine) : List Tile :=
  header "Subroutine:" :: blank :: string s.name :: newline :: header "Shape:" :: blank :: string s.shape ::
    newline :: header "Controllable:" :: blank :: keyword s.controllable.name :: newline :: s.circuit.tiles

def Program.tiles (p : Program) : List Tile :=
  p.main.tiles ++ p.subroutines.flatMap (fun s => newline :: newline :: s.tiles) ++ [newline]

theorem flat_starTiles (inverted : Bool) : flat (starTiles inverted) = starText inverted := by
  cases inverted <;> rfl

theorem flat_controlTiles (c : Control) : flat c.tiles = c.text := by
  have hrefs : flat (joined [punctuation ","] (c.refs.map fun r => [integer r.text])) =
      Bytes.join "," (c.refs.map ControlRef.text) := by
    rw [flat_joined, List.map_map]
    congr 1
    apply List.map_congr_left
    intro r _
    simp [integer]
  simp only [Control.tiles, Control.text]
  split
  · rw [List.cons_append, Token.flat_cons, Token.flat_append, hrefs, Token.flat_cons]
    split
    · simp only [List.append_assoc]
      rfl
    · simp only [List.append_assoc]
      rfl
  · rfl

theorem flat_wiresTiles (ws : List Wire) :
    flat (wiresTiles ws) = Bytes.ofString "(" ++ Bytes.join "," (ws.map Bytes.ofInt64) ++ ")" := by
  have hwires : flat (joined [punctuation ","] (ws.map fun w => [ofWire w])) =
      Bytes.join "," (ws.map Bytes.ofInt64) := by
    rw [flat_joined, List.map_map]
    congr 1
    apply List.map_congr_left
    intro w _
    simp [ofWire, integer]
  rw [wiresTiles, List.cons_append, Token.flat_cons, Token.flat_append, hwires]
  rfl

theorem flat_callTiles (c : Call) : flat c.tiles = c.text := by
  have hrepetition : flat c.repetitionTiles = c.repetitionText := by
    simp only [Call.repetitionTiles, Call.repetitionText]
    split
    · rfl
    · simp only [Token.flat_cons, Token.flat_nil, List.append_nil, List.append_assoc]
      rfl
  have hcontrol : flat c.controlTiles = c.controlText := by
    simp only [Call.controlTiles, Call.controlText]
    split
    · simp only [Token.flat_cons, flat_controlTiles]
      rfl
    · rfl
  simp only [Call.tiles, Call.text, List.cons_append, List.append_assoc, Token.flat_cons, Token.flat_append,
    hrepetition, hcontrol, flat_starTiles, flat_wiresTiles]
  rfl

theorem flat_gateTiles (g : Gate) : flat g.tiles = g.text := by
  cases g with
  | named op inverted w control =>
    simp only [Gate.tiles, Gate.text, List.cons_append, List.append_assoc, Token.flat_cons, Token.flat_append,
      flat_starTiles, flat_controlTiles]
    rfl
  | rotation op inverted step w =>
    simp only [Gate.tiles, Gate.text, List.cons_append, List.append_assoc, Token.flat_cons, Token.flat_append,
      flat_starTiles, Token.flat_nil, List.append_nil]
    rfl
  | init value w label =>
    have hlabel : flat (initLabelTiles label) = initLabelText label := by
      simp only [initLabelTiles, initLabelText]
      split
      · rfl
      · simp only [Token.flat_cons, Token.flat_nil, List.append_nil]
        rfl
    simp only [Gate.tiles, Gate.text, List.cons_append, List.append_assoc, Token.flat_cons, Token.flat_append,
      hlabel, Token.flat_nil, List.append_nil]
    rfl
  | comment text labels =>
    have hlabels : (labels.map WireLabel.tiles).map flat = labels.map WireLabel.text := by
      rw [List.map_map]
      apply List.map_congr_left
      intro l _
      simp only [Function.comp, WireLabel.tiles, WireLabel.text, Token.flat_cons, Token.flat_nil, List.append_nil,
        List.append_assoc]
      rfl
    simp only [Gate.tiles, Gate.text, List.cons_append, List.append_assoc, Token.flat_cons, Token.flat_append,
      flat_joined, hlabels, Token.flat_nil, List.append_nil]
    rfl
  | call c => exact flat_callTiles c

theorem flat_lineTiles (direction : Direction) (ds : List Declaration) :
    flat (Declaration.lineTiles direction ds) ++ [Bytes.newline] = Declaration.line direction ds := by
  have hdeclarations : (ds.map Declaration.tiles).map flat = ds.map Declaration.text := by
    rw [List.map_map]
    apply List.map_congr_left
    intro d _
    simp only [Function.comp, Declaration.tiles, Declaration.text, Token.flat_cons, Token.flat_nil,
      List.append_nil, List.append_assoc]
    rfl
  simp only [Declaration.lineTiles, Declaration.line, Token.flat_cons, flat_joined, hdeclarations,
    List.append_assoc]
  rfl

theorem flatMap_newline {α : Type} (f : α → Bytes) (as : List α) (rest : Bytes) :
    Bytes.newline :: (as.flatMap (fun a => f a ++ [Bytes.newline]) ++ rest) =
      as.flatMap (fun a => Bytes.newline :: f a) ++ Bytes.newline :: rest := by
  induction as with
  | nil => rfl
  | cons a as ih =>
    simp only [List.flatMap_cons, List.cons_append, List.append_assoc, List.nil_append, ih]

theorem flat_flatMap {α : Type} (f : α → List Tile) (as : List α) :
    flat (as.flatMap f) = as.flatMap (fun a => flat (f a)) := List.flatMap_assoc

theorem flat_circuitTiles (c : Circuit) : flat c.tiles ++ [Bytes.newline] = c.text := by
  simp only [Circuit.tiles, Circuit.text, ← flat_lineTiles, Token.flat_append, Token.flat_cons, flat_flatMap,
    flat_gateTiles]
  simp only [newline, List.cons_append, List.nil_append, List.append_assoc, flatMap_newline]

theorem flat_subroutineTiles (s : Subroutine) : flat s.tiles ++ [Bytes.newline] = s.text := by
  simp only [Subroutine.tiles, Subroutine.text, ← flat_circuitTiles, Token.flat_cons, List.append_assoc]
  rfl

theorem flat_programTiles (p : Program) : flat p.tiles = p.text := by
  have hsubs := flatMap_newline (fun s : Subroutine => Bytes.newline :: flat s.tiles) p.subroutines []
  simp only [Program.tiles, Program.text, ← flat_circuitTiles, ← flat_subroutineTiles, Token.flat_append,
    Token.flat_cons, Token.flat_nil, flat_flatMap]
  simp only [newline, List.cons_append, List.nil_append, List.append_nil, List.append_assoc] at hsubs ⊢
  rw [hsubs]

end CircuitDesk
