import CircuitDesk.Bytes.Case
import CircuitDesk.Editor

namespace CircuitDesk.Editor

/-- Characters behind a word's end, with the nearest first, from which the blanks are taken that lie between;
the first character of the line stays in any case. -/
def skipBlanksBack : List Char → List Char
  | c :: d :: rest => if isBlank c then skipBlanksBack (d :: rest) else c :: d :: rest
  | cs => cs

def skipWordBack : List Char → List Char
  | c :: d :: rest => if isBlank c then c :: d :: rest else skipWordBack (d :: rest)
  | _ => []

def deleteWordBefore (e : Editor) : Editor :=
  if e.before = [] then e.joinAbove else { e with before := skipWordBack (skipBlanksBack e.before), goal := 0 }

def deleteWordAfter (e : Editor) : Editor :=
  if e.after = [] then e.joinBelow
  else { e with after := (e.after.dropWhile isBlank).dropWhile (fun c => !isBlank c), goal := 0 }

def leftInside (e : Editor) : Editor :=
  let e := if e.before = [] ∧ e.above ≠ [] then e.lineAbove.toEnd else e
  match e.before with
  | c :: cs => { e with before := cs, after := c :: e.after, goal := 0 }
  | [] => e

def isOnWord (e : Editor) : Bool :=
  match e.after with
  | c :: _ => !isBlank c
  | [] => false

def leftToWord : Nat → Editor → Editor
  | 0, e => e
  | steps + 1, e =>
    let e := e.leftInside
    if e.isOnWord then e else leftToWord steps e

def toWordStart (e : Editor) : Editor :=
  let word := e.before.takeWhile (fun c => !isBlank c)
  if word = [] then e
  else { e with before := e.before.drop word.length, after := word.reverse ++ e.after, goal := 0 }

def wordLeft (e : Editor) : Editor := (leftToWord (e.text.length + 1) e).toWordStart

def rightToWord : Nat → Editor → Editor
  | 0, e => e
  | steps + 1, e =>
    let blanks := e.after.takeWhile isBlank
    let e :=
      if blanks = [] then e
      else { e with before := blanks.reverse ++ e.before, after := e.after.drop blanks.length, goal := 0 }
    if e.after = [] ∧ e.below ≠ [] then rightToWord steps e.lineBelow.toStart else e

def changeWord (change : List Char → List Char) (e : Editor) : Editor :=
  let e := rightToWord (e.below.length + 1) e
  let word := e.after.takeWhile (fun c => !isBlank c)
  if word = [] then e
  else { e with before := (change word).reverse ++ e.before, after := e.after.drop word.length, goal := 0 }

def wordRight (e : Editor) : Editor := changeWord id e

def capitalizeWord (e : Editor) : Editor :=
  changeWord (fun
    | c :: cs => Bytes.toTitle c :: cs
    | [] => []) e

def lowerWord (e : Editor) : Editor := changeWord (·.map Bytes.toSmall) e

def upperWord (e : Editor) : Editor := changeWord (·.map Bytes.toCapital) e

def transpose (e : Editor) : Editor :=
  match e.before, e.after with
  | d :: before, c :: after => { e with before := d :: c :: before, after := after, goal := 0 }
  | c :: d :: before, [] => { e with before := d :: c :: before, goal := 0 }
  | _, _ => e

end CircuitDesk.Editor
