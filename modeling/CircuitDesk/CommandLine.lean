import CircuitDesk.Batch.Run
import CircuitDesk.CommandLine.Help
import CircuitDesk.CommandLine.Script.Bash
import CircuitDesk.CommandLine.Script.Fish
import CircuitDesk.CommandLine.Script.Powershell
import CircuitDesk.CommandLine.Script.Zsh
import CircuitDesk.CommandLine.Suggestion
import CircuitDesk.Program.Json
import CircuitDesk.Program.Text
import CircuitDesk.Settings
import CircuitDesk.Statistics
import CircuitDesk.Table

/-!
What the commands do. A command line is read in full before the settings are loaded, and the settings are
checked before the command runs; a command sees files and returns them together with what it prints.
-/
namespace CircuitDesk.CommandLine

inductive Failure where
  | unknownCommand (word : Bytes)
  | flag (e : FlagFault)
  | notOneFile (received : Nat)
  | noFile
  | extraWord (word : Bytes) (c : Command)
  | settings (e : Settings.LoadFault)
  | refusedSettings (e : Settings.Refusal)
  | unknownRule (name : Bytes)
  | unreadable (e : Files.Error)
  | unwritable (e : Files.Error)
  | fault (e : Fault)
  | input (r : Batch.Result)
  | noSubroutine (name : Bytes)
  | failedFiles (failed total : Nat)
deriving DecidableEq, Repr

namespace Failure

def proposalText (names : List Bytes) : Bytes :=
  if names = [] then []
  else Bytes.ofString "\n\nDid you mean this?\n" ++
    names.flatMap fun n => Bytes.ofString "\t" ++ n ++ [Bytes.newline]

def unknownCommandText (word : Bytes) (c : Command) : Bytes :=
  Bytes.ofString "unknown command " ++ Bytes.quoted word ++ " for " ++ Bytes.quoted c.fullName

def message : Failure → Bytes
  | unknownCommand w => unknownCommandText w .overview ++ proposalText (proposals w)
  | flag e => e.message
  | notOneFile n => Bytes.ofString "accepts 1 arg(s), received " ++ Bytes.ofNat n
  | noFile => "requires at least 1 arg(s), only received 0"
  | extraWord w c => unknownCommandText w c
  | settings e => e.message
  | refusedSettings e => e.message
  | unknownRule n => Bytes.ofString "unknown rule " ++ Bytes.quoted n
  | unreadable e => Bytes.ofString "read input: " ++ e.message
  | unwritable e => Bytes.ofString "write output: " ++ e.message
  | fault e => e.message
  | input r => r.error?.getD []
  | noSubroutine n => Bytes.ofString "no subroutine " ++ Bytes.quoted n
  | failedFiles failed total => Bytes.ofNat failed ++ " of " ++ Bytes.ofNat total ++ " files failed"

def fault? : Failure → Option Fault
  | fault e => some e
  | input r =>
    match r.outcome with
    | .refused e => some e
    | _ => none
  | _ => none

def report (e : Failure) : Bytes :=
  Bytes.ofString "Error: " ++ e.message ++ [Bytes.newline] ++
    match e with
    | unknownCommand _ => Bytes.ofString "Run 'quipdeck --help' for usage.\n"
    | _ => []

end Failure

inductive Action where
  | help (c : Command)
  | unknownTopic (words : List Bytes)
  | parse (path rule : Bytes) (tree : Bool)
  | format (path : Bytes) (write : Bool)
  | check (paths : List Bytes)
  | stats (path circuit : Bytes)
  | draw (path circuit : Bytes) (plain : Bool) (maxColumns : Option Int64)
  | view (path : Bytes)
  | script (s : Shell) (descriptions : Bool)
  | suggest (descriptions : Bool) (args : List Bytes) (typed : Bytes)
deriving DecidableEq, Repr

structure Overrides where
  workers : Option Int64
  timeout : Option Duration
  strict : Option Bool
  debug : Option Bool
deriving DecidableEq, Repr

def Overrides.apply (o : Overrides) (s : Settings) : Settings where
  workers := o.workers.getD s.workers
  timeout := o.timeout.getD s.timeout
  strictCalls := o.strict.getD s.strictCalls
  debug := o.debug.getD s.debug
  diagram := s.diagram

structure Request where
  action : Action
  settingsPath : Bytes
  overrides : Overrides
deriving DecidableEq, Repr

def Arguments.oneFile (a : Arguments) : Except Failure Bytes :=
  match a.rest with
  | [path] => .ok path
  | paths => .error (.notOneFile paths.length)

def Command.action (c : Command) (a : Arguments) : Except Failure Action :=
  match c with
  | .overview => .ok (.help .overview)
  | .parse => do
    let path ← a.oneFile
    return .parse path ((a.string? "rule").getD Rule.program.name) ((a.bool? "tree").getD false)
  | .format => return .format (← a.oneFile) ((a.bool? "write").getD false)
  | .check => if a.rest = [] then .error .noFile else .ok (.check a.rest)
  | .stats => return .stats (← a.oneFile) ((a.string? "circuit").getD [])
  | .draw => do
    let path ← a.oneFile
    return .draw path ((a.string? "circuit").getD []) ((a.bool? "no-color").getD false) (a.int? "max-columns")
  | .view => return .view (← a.oneFile)
  | .help =>
    match findTopic a.rest with
    | .ok (topic, _) => .ok (.help topic)
    | .error _ => .ok (.unknownTopic a.rest)
  | .completion => .ok (.help .completion)
  | .script s =>
    match a.rest with
    | [] => .ok (.script s (!(a.bool? "no-descriptions").getD false))
    | w :: _ => .error (.extraWord w c)
  | .suggest descriptions =>
    match a.rest.getLast? with
    | some typed => .ok (.suggest descriptions a.rest.dropLast typed)
    | none => .error .noFile

inductive Reading where
  | help (c : Command)
  | request (r : Request)
deriving DecidableEq, Repr

def Reading.ofArguments (args : List Bytes) : Except Failure Reading := do
  let (c, args) ← (findCommand args).mapError .unknownCommand
  let a ← if c.takesRawWords then pure (Arguments.empty.push args) else
    (readArguments c.flags .empty args).mapError .flag
  if (a.bool? "help").getD false || c = .completion then return .help c
  let act ← c.action a
  return .request ⟨act, (a.string? "config").getD [],
    ⟨a.int? "workers", a.duration? "timeout", a.bool? "strict", a.bool? "debug"⟩⟩

def Request.settings (r : Request) (fs : Files) (base : Settings) : Except Failure Settings := do
  let s ← (Settings.load fs r.settingsPath base).mapError .settings
  let s := r.overrides.apply s
  s.check.mapError .refusedSettings
  return s

structure Outcome where
  stdout : Bytes
  files : Files
  failure : Option Failure
  remark : Bytes
deriving DecidableEq, Repr

def Outcome.stderr (o : Outcome) : Bytes := o.remark ++ (o.failure.map Failure.report).getD []

inductive Reply where
  | done (o : Outcome)
  | viewer (s : Settings) (path text : Bytes)

end CommandLine

open CommandLine

namespace Settings

def runner (s : Settings) : Batch.Runner :=
  { Batch.Runner.standard.withWorkers s.workers.toInt with timeout := s.timeout, strict := s.strictCalls }

def loadProgram (s : Settings) (fs : Files) (path : Bytes) : Except Failure CheckedProgram :=
  let r := s.runner.loadFile fs path
  match r.outcome with
  | .parsed p => .ok p
  | _ => .error (.input r)

end Settings

namespace CommandLine

def pickCircuit (p : Program) (name : Bytes) : Except Failure Circuit :=
  match p.circuit? name with
  | some c => .ok c
  | none => .error (.noSubroutine name)

def findRule (name : Bytes) : Except Failure Rule :=
  match Rule.lookup name with
  | some (_, r) => if r.isEntry then .ok r else .error (.unknownRule name)
  | none => .error (.unknownRule name)

def readInput (fs : Files) (path : Bytes) : Except Failure Bytes := (fs.read path).mapError .unreadable

def parseText (s : Settings) (fs : Files) (path ruleName : Bytes) (tree : Bool) : Except Failure Bytes := do
  let rule ← findRule ruleName
  if tree then
    let t ← (Source.tree rule path (← readInput fs path)).mapError .fault
    return t.text ++ [Bytes.newline]
  else if rule = .program then
    let p ← s.loadProgram fs path
    return (Json.ofRuleValue (.program p)).document
  else
    let v ← (Source.value rule ⟨path, s.strictCalls⟩ (← readInput fs path)).mapError .fault
    return (Json.ofRuleValue v).document

def tallyText (title : Bytes) (t : Tally) : Bytes :=
  if t.entries = [] then []
  else Table.text true [title, "Count"] (t.entries.map fun (k, n) => [k, Bytes.ofInt64 n])

def statisticsText (p : Program) (c : Circuit) : Bytes :=
  let s := c.statistics
  Table.text true ["Metric", "Value"] [
      ["gates", Bytes.ofNat s.gates],
      ["wires", Bytes.ofNat s.wires],
      ["controlled", Bytes.ofNat s.controlled],
      ["inverted", Bytes.ofNat s.inverted],
      ["subroutines", Bytes.ofNat p.subroutines.length]] ++
    tallyText "Kind" s.byKind ++ tallyText "Operation" s.byOperation ++ tallyText "Calls" s.calls ++
    tallyText "Applications" s.applications

def resultRow (r : Batch.Result) : List Bytes :=
  match r.program? with
  | none => [r.name, r.status, "-", "-", r.error?.getD []]
  | some p =>
    let names := p.report.unresolvedNames
    [r.name, r.status, Bytes.ofNat p.program.main.gates.length, Bytes.ofNat p.program.subroutines.length,
      if names = [] then [] else Bytes.ofString "unresolved: " ++ Bytes.join ", " names]

def summaryText (s : Batch.Summary) : Bytes :=
  Bytes.ofNat s.total ++ " files: " ++ Bytes.ofNat s.ok ++ " ok, " ++ Bytes.ofNat s.failed ++ " failed (" ++
    Bytes.ofNat s.timedOut ++ " timed out), " ++ Bytes.ofNat s.unresolved ++ " with unresolved calls\n"

def checkText (rs : List Batch.Result) : Bytes :=
  Table.text false ["File", "Status", "Gates", "Subroutines", "Detail"] (rs.map resultRow) ++
    summaryText (Batch.summarize rs)

def checkFailure (rs : List Batch.Result) : Option Failure :=
  let s := Batch.summarize rs
  if s.failed = 0 then none else some (.failedFiles s.failed s.total)

def drawingOptions (s : Settings) (plain : Bool) (maxColumns : Option Int64) : Drawing.Options where
  palette := if plain then .plain else s.palette
  maxColumns := (maxColumns.getD s.diagram.maxColumns).toInt

def unknownTopicText (words : List Bytes) : Bytes :=
  Bytes.ofString "Unknown help topic [" ++
    Bytes.join " " (words.map Bytes.backquoted) ++ "]\n" ++ Command.overview.usageWith []

def Shell.scriptLines : Shell → (request : String) → List String
  | .bash => Script.Bash.lines
  | .fish => Script.Fish.lines
  | .powershell => Script.Powershell.lines
  | .zsh => Script.Zsh.lines

def Shell.script (s : Shell) (descriptions : Bool) : Bytes :=
  Bytes.unlines ((s.scriptLines (Command.suggestWord descriptions)).map Bytes.ofString) ++ [Bytes.newline]

def printed (fs : Files) : Except Failure Bytes → Reply
  | .ok text => .done ⟨text, fs, none, []⟩
  | .error e => .done ⟨[], fs, some e, []⟩

def formatInPlace (s : Settings) (fs : Files) (path : Bytes) : Reply :=
  match s.loadProgram fs path with
  | .error e => .done ⟨[], fs, some e, []⟩
  | .ok p =>
    let w := fs.write path p.program.text
    .done ⟨[], w.files fs, w.error?.map .unwritable, []⟩

def openViewer (s : Settings) (fs : Files) (path : Bytes) : Reply :=
  match fs.read path with
  | .ok text => .viewer s path text
  | .error e =>
    if e.cause = .noSuchFile then .viewer s path [] else .done ⟨[], fs, some (.unreadable e), []⟩

def Action.run (s : Settings) (fs : Files) : Action → Reply
  | help c => printed fs (.ok c.helpText)
  | unknownTopic words => printed fs (.ok (unknownTopicText words))
  | parse path rule tree => printed fs (parseText s fs path rule tree)
  | format path false => printed fs ((s.loadProgram fs path).map fun p => p.program.text)
  | format path true => formatInPlace s fs path
  | check paths =>
    let rs := paths.map (s.runner.loadFile fs)
    .done ⟨checkText rs, fs, checkFailure rs, []⟩
  | stats path circuit => printed fs do
    let p ← s.loadProgram fs path
    return statisticsText p.program (← pickCircuit p.program circuit)
  | draw path circuit plain maxColumns => printed fs do
    let p ← s.loadProgram fs path
    return Drawing.text (drawingOptions s plain maxColumns) (← pickCircuit p.program circuit)
  | view path => openViewer s fs path
  | script shell descriptions => printed fs (.ok (shell.script descriptions))
  | suggest descriptions args typed =>
    let s := CommandLine.suggest args typed
    .done ⟨s.text descriptions, fs, none, s.remark⟩

def run (fs : Files) (args : List Bytes) (base : Settings := .standard) : Reply :=
  match Reading.ofArguments args with
  | .error e => printed fs (.error e)
  | .ok (.help c) => printed fs (.ok c.helpText)
  | .ok (.request r) =>
    match r.settings fs base with
    | .error e => printed fs (.error e)
    | .ok s => r.action.run s fs

end CommandLine

end CircuitDesk
