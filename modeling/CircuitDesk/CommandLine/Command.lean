import CircuitDesk.Bytes.Case
import CircuitDesk.CommandLine.Flag

namespace CircuitDesk.CommandLine

def programName : Bytes := "quipdeck"

inductive Shell where
  | bash
  | fish
  | powershell
  | zsh
deriving DecidableEq, Repr

namespace Shell

def name : Shell → Bytes
  | bash => "bash"
  | fish => "fish"
  | powershell => "powershell"
  | zsh => "zsh"

def all : List Shell := [bash, fish, powershell, zsh]

def ofName? (w : Bytes) : Option Shell := all.find? (·.name = w)

end Shell

/-- What can be asked for; `overview` stands for no command at all. -/
inductive Command where
  | overview
  | parse
  | format
  | check
  | stats
  | draw
  | view
  | help
  | completion
  | script (s : Shell)
  | suggest (descriptions : Bool)
deriving DecidableEq, Repr

def configFlag : Flag := ⟨"config", some 99, .string, "YAML configuration file", []⟩

def workersFlag : Flag := ⟨"workers", none, .int, "number of files parsed in parallel", []⟩

def timeoutFlag : Flag := ⟨"timeout", none, .duration, "time limit for parsing one file", []⟩

def strictFlag : Flag := ⟨"strict", none, .bool, "reject calls to undefined subroutines", []⟩

def debugFlag : Flag := ⟨"debug", none, .bool, "development logging", []⟩

def treeFlag : Flag := ⟨"tree", none, .bool, "print the concrete parse tree", []⟩

def ruleFlag : Flag := ⟨"rule", none, .string, "grammar rule to parse the file as", "program"⟩

def writeFlag : Flag := ⟨"write", some 119, .bool, "rewrite the file in place", []⟩

def countedCircuitFlag : Flag := ⟨"circuit", none, .string, "subroutine to count instead of the main circuit", []⟩

def drawnCircuitFlag : Flag := ⟨"circuit", none, .string, "subroutine to draw instead of the main circuit", []⟩

def noColorFlag : Flag := ⟨"no-color", none, .bool, "plain text output", []⟩

def noDescriptionsFlag : Flag := ⟨"no-descriptions", none, .bool, "disable completion descriptions", []⟩

def maxColumnsFlag : Flag := ⟨"max-columns", none, .int, "draw at most this many columns (0 for all)", []⟩

def sharedFlags : List Flag := [configFlag, debugFlag, strictFlag, timeoutFlag, workersFlag]

namespace Command

def name : Command → Bytes
  | overview => programName
  | parse => "parse"
  | format => "fmt"
  | check => "check"
  | stats => "stats"
  | draw => "draw"
  | view => "view"
  | help => "help"
  | completion => "completion"
  | script s => s.name
  | suggest _ => "__complete"

def worded : List Command := [parse, format, check, stats, draw, view, help, completion]

def ofName? (w : Bytes) : Option Command := worded.find? (·.name = w)

def suggestWord (descriptions : Bool) : String := if descriptions then "__complete" else "__completeNoDesc"

def ofWord? (w : Bytes) : Option Command :=
  if w = Bytes.ofString (suggestWord true) then some (suggest true)
  else if w = Bytes.ofString (suggestWord false) then some (suggest false)
  else ofName? w

def fullName : Command → Bytes
  | overview => programName
  | script s => programName ++ " completion " ++ s.name
  | c => programName ++ " " ++ c.name

def ownFlags : Command → List Flag
  | parse => [ruleFlag, treeFlag]
  | format => [writeFlag]
  | stats => [countedCircuitFlag]
  | draw => [drawnCircuitFlag, maxColumnsFlag, noColorFlag]
  | script _ => [noDescriptionsFlag]
  | _ => []

def helpFlag (c : Command) : Flag := ⟨"help", some 104, .bool, Bytes.ofString "help for " ++ c.name, []⟩

def flags (c : Command) : List Flag := c.helpFlag :: c.ownFlags ++ sharedFlags

def takesRawWords : Command → Bool
  | suggest _ => true
  | _ => false

end Command

/-- Whether the next argument belongs to this one. An unknown flag counts as one with a value. -/
def takesNext (flags : List Flag) (arg : Bytes) : Bool :=
  !arg.contains 61 &&
    if arg.take 2 = [45, 45] then !flags.any fun f => f.name = arg.drop 2 && f.type = .bool
    else arg.head? = some 45 && arg.length = 2 && !flags.any fun f => f.letter = arg[1]? && f.type = .bool

/-- The arguments that are neither flags nor their values. A flag with at most one argument behind it ends the
search. -/
def words (flags : List Flag) : List Bytes → List Bytes
  | [] => []
  | arg :: more =>
    if arg = [45, 45] then []
    else if takesNext flags arg then
      match more with
      | _ :: next :: rest => words flags (next :: rest)
      | _ => []
    else if arg ≠ [] ∧ arg.head? ≠ some 45 then arg :: words flags more
    else words flags more

/-- The arguments without the first that is this word and not the value of a flag. -/
def withoutWord (flags : List Flag) (word : Bytes) : List Bytes → List Bytes
  | [] => []
  | arg :: more =>
    if arg = [45, 45] then arg :: more
    else if takesNext flags arg then
      match more with
      | [] => [arg]
      | value :: rest => arg :: value :: withoutWord flags word rest
    else if arg = word then more
    else arg :: withoutWord flags word more

def findScript (args : List Bytes) : Command × List Bytes :=
  match (words sharedFlags args).head? with
  | none => (.completion, args)
  | some w =>
    match Shell.ofName? w with
    | some s => (.script s, withoutWord sharedFlags w args)
    | none => (.completion, args)

def findCommandBy (command? : Bytes → Option Command) (args : List Bytes) :
    Except Bytes (Command × List Bytes) :=
  match words sharedFlags args with
  | [] => .ok (.overview, args)
  | w :: _ =>
    match command? w with
    | some .completion => .ok (findScript (withoutWord sharedFlags w args))
    | some c => .ok (c, withoutWord sharedFlags w args)
    | none => .error w

def findCommand (args : List Bytes) : Except Bytes (Command × List Bytes) := findCommandBy Command.ofWord? args

def findTopic (args : List Bytes) : Except Bytes (Command × List Bytes) := findCommandBy Command.ofName? args

def distanceRow (b : UInt8) (left corner : Nat) : Bytes → List Nat → List Nat
  | c :: cs, above :: rest =>
    let d := if b = c then corner else min (min left above) corner + 1
    d :: distanceRow b d above cs rest
  | _, _ => []

def editDistance (s t : Bytes) : Nat :=
  let rows := s.foldl
    (fun (i, row) b => (i + 1, (i + 1) :: distanceRow b (i + 1) (row.headD 0) t (row.drop 1)))
    (0, List.range (t.length + 1))
  rows.2.getLastD 0

def proposalDistance : Nat := 2

def proposals (w : Bytes) : List Bytes :=
  let typed := Bytes.ofChars ((Bytes.chars w).map Bytes.toSmall)
  ((Command.worded.filter (· ≠ .help)).map Command.name).filter fun name =>
    editDistance typed name ≤ proposalDistance || typed.isPrefixOf name

end CircuitDesk.CommandLine
