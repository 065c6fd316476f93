import CircuitDesk.Bytes.Chars
import CircuitDesk.Display.Cluster.Tables

/-!
Characters as a reader sees them: a letter with its marks, a syllable of several signs, a flag of two letters
or pictures joined into one are one cluster. A cluster ends where the next character does not join it, and its
columns follow from its characters.
-/
namespace CircuitDesk.Display

inductive CharKind where
  | carriageReturn
  | lineFeed
  | control
  | extender
  | joiner
  | regional
  | prepended
  | spacingMark
  | leadingConsonant
  | vowel
  | trailingConsonant
  | openSyllable
  | closedSyllable
  | pictograph
  | other
deriving DecidableEq, Repr

def syllablePart? (n : Nat) : Option CharKind :=
  if (0x1100 ≤ n && n ≤ 0x115F) || (0xA960 ≤ n && n ≤ 0xA97C) then some .leadingConsonant
  else if (0x1160 ≤ n && n ≤ 0x11A7) || (0xD7B0 ≤ n && n ≤ 0xD7C6) then some .vowel
  else if (0x11A8 ≤ n && n ≤ 0x11FF) || (0xD7CB ≤ n && n ≤ 0xD7FB) then some .trailingConsonant
  else none

def highKind (n : Nat) : CharKind :=
  if 0xAC00 ≤ n && n ≤ 0xD7A3 then
    if (n - 0xAC00) % 28 = 0 then .openSyllable else .closedSyllable
  else if n = 0x200D then .joiner
  else if 0x1F1E6 ≤ n && n ≤ 0x1F1FF then .regional
  else match syllablePart? n with
    | some k => k
    | none =>
      if extenders.contains n then .extender
      else if pictographs.contains n then .pictograph
      else if spacingMarks.contains n then .spacingMark
      else if controls.contains n then .control
      else if prepended.contains n then .prepended
      else .other

def charKind (n : Nat) : CharKind :=
  if 0x20 ≤ n && n ≤ 0x7E then .other
  else if n = 0x0A then .lineFeed
  else if n = 0x0D then .carriageReturn
  else if n ≤ 0x9F then .control
  else highKind n

/-- Columns of a character that stands alone: none for controls and marks, two for flags, coloured pictures and
the characters of East Asian scripts. Two long dashes are wider than any of these. -/
def charWidth (n : Nat) : Nat :=
  match charKind n with
  | .carriageReturn | .lineFeed | .control | .extender | .joiner => 0
  | .regional => 2
  | .pictograph => if coloured.contains n then 2 else 1
  | _ => if n = 0x2E3A then 3 else if n = 0x2E3B then 4 else if fullWidth.contains n then 2 else 1

inductive ClusterState where
  | carriageReturn
  | control
  | prepended
  | leadingConsonant
  | openSyllable
  | closedSyllable
  | pictograph
  | joinedPictograph
  | oddRegional
  | evenRegional
  | other
deriving DecidableEq, Repr

namespace ClusterState

def opening : CharKind → ClusterState
  | .carriageReturn => carriageReturn
  | .lineFeed | .control => control
  | .prepended => prepended
  | .leadingConsonant => leadingConsonant
  | .vowel | .openSyllable => openSyllable
  | .trailingConsonant | .closedSyllable => closedSyllable
  | .pictograph => pictograph
  | .regional => oddRegional
  | .extender | .joiner | .spacingMark | .other => other

def after : ClusterState → CharKind → ClusterState
  | pictograph, .extender => pictograph
  | pictograph, .joiner => joinedPictograph
  | oddRegional, .regional => evenRegional
  | _, k => opening k

def joins : ClusterState → CharKind → Bool
  | carriageReturn, k => k = .lineFeed
  | control, _ => false
  | s, k =>
    match k with
    | .carriageReturn | .lineFeed | .control => false
    | .extender | .joiner | .spacingMark => true
    | _ =>
      match s, k with
      | prepended, _ => true
      | leadingConsonant, .leadingConsonant | leadingConsonant, .vowel => true
      | leadingConsonant, .openSyllable | leadingConsonant, .closedSyllable => true
      | openSyllable, .vowel | openSyllable, .trailingConsonant => true
      | closedSyllable, .trailingConsonant => true
      | joinedPictograph, .pictograph => true
      | oddRegional, .regional => true
      | _, _ => false

end ClusterState

/-- The columns of a cluster that opens with a character of kind `first` once another character joins it. A
picture is told by a selector behind it whether it is shown as text or in colour; flags and Korean syllables
keep their columns. -/
def joinedWidth (first : CharKind) (width n : Nat) : Nat :=
  match first with
  | .pictograph => if n = 0xFE0E then 1 else if n = 0xFE0F then 2 else width
  | .regional | .leadingConsonant => width
  | _ => width + charWidth n

def clusterRest (first : CharKind) (s : ClusterState) (width : Nat) : Bytes → Nat × Nat
  | [] => (0, width)
  | b :: rest =>
    let n := (Bytes.firstGlyph b rest).1.toChar.toNat
    if s.joins (charKind n) then
      let more := clusterRest first (s.after (charKind n)) (joinedWidth first width n)
        (rest.drop (Bytes.firstGlyph b rest).2)
      ((Bytes.firstGlyph b rest).2 + 1 + more.1, more.2)
    else (0, width)
termination_by t => t.length
decreasing_by
  simp only [List.length_drop, List.length_cons]
  omega

def firstCluster (b : UInt8) (rest : Bytes) : Nat × Nat :=
  let used := (Bytes.firstGlyph b rest).2
  let n := (Bytes.firstGlyph b rest).1.toChar.toNat
  let more := clusterRest (charKind n) (.opening (charKind n)) (charWidth n) (rest.drop used)
  (used + more.1, more.2)

def clustersWidth : Bytes → Nat
  | [] => 0
  | b :: rest => (firstCluster b rest).2 + clustersWidth (rest.drop (firstCluster b rest).1)
termination_by t => t.length
decreasing_by
  simp only [List.length_drop, List.length_cons]
  omega

end CircuitDesk.Display
