import CircuitDesk.CommandLine.Help

namespace CircuitDesk.CommandLine

inductive Directive where
  | files
  | noFiles
deriving DecidableEq, Repr

namespace Directive

def number : Directive → Nat
  | files => 0
  | noFiles => 4

def name : Directive → Bytes
  | files => "ShellCompDirectiveDefault"
  | noFiles => "ShellCompDirectiveNoFileComp"

end Directive

structure Suggestions where
  items : List (Bytes × Bytes)
  directive : Directive
deriving DecidableEq, Repr

namespace Suggestions

def empty : Suggestions := ⟨[], .files⟩

def itemText (descriptions : Bool) : Bytes × Bytes → Bytes
  | (word, line) => word ++ (if descriptions then Bytes.ofString "\t" ++ line else []) ++ [Bytes.newline]

def text (s : Suggestions) (descriptions : Bool) : Bytes :=
  s.items.flatMap (itemText descriptions) ++ Bytes.ofString ":" ++ Bytes.ofNat s.directive.number ++
    [Bytes.newline]

def remark (s : Suggestions) : Bytes :=
  Bytes.ofString "Completion ended with directive: " ++ s.directive.name ++ [Bytes.newline]

end Suggestions

def dash : UInt8 := 45

def equals : UInt8 := 61

def isFlagWord (w : Bytes) : Bool :=
  w.head? = some dash && if w[1]? = some dash then 3 ≤ w.length else 2 ≤ w.length

/-- The flag that a word names last: its full name, or the last of its letters. -/
def flagName (w : Bytes) : Bytes := if w.take 2 = [dash, dash] then w.drop 2 else w.getLast?.toList

def flagOf? (flags : List Flag) (name : Bytes) : Option Flag :=
  match name with
  | [l] => flags.find? (·.letter = some l)
  | _ => flags.find? (·.name = name)

structure Typing where
  flag : Option Flag
  args : List Bytes
  typed : Bytes
  unknown : Bool

def typedFlag? (typed : Bytes) : Option (Bytes × Bytes) :=
  if typed.head? = some dash ∧ equals ∈ typed then
    some (flagName (typed.takeWhile (· ≠ equals)), (typed.dropWhile (· ≠ equals)).drop 1)
  else none

def openFlag (args : List Bytes) : Bytes :=
  match args.getLast? with
  | some w => if isFlagWord w ∧ equals ∉ w then flagName w else []
  | none => []

def Typing.of (flags : List Flag) (args : List Bytes) (typed : Bytes) : Typing :=
  let behind := typedFlag? typed
  let (ownName, value) := behind.getD ([], typed)
  if behind.isNone ∧ typed.head? = some dash then ⟨none, args, typed, false⟩
  else
    let name := if ownName = [] then openFlag args else ownName
    if name = [] then ⟨none, args, value, false⟩
    else match flagOf? flags name with
      | none => ⟨none, args, typed, true⟩
      | some f =>
        if behind.isNone ∧ f.type = .bool then ⟨none, args, value, false⟩
        else ⟨some f, if ownName = [] then args.dropLast else args, value, false⟩

namespace Command

def below : Command → List (Bytes × Bytes)
  | overview => listedCommands
  | completion => listedShells
  | _ => []

def suggestedFlags : Command → List Flag
  | overview => byName (flags overview)
  | c => byName sharedFlags ++ byName (c.helpFlag :: c.ownFlags)

end Command

def startingWith (typed : Bytes) (items : List (Bytes × Bytes)) : List (Bytes × Bytes) :=
  items.filter fun i => typed.isPrefixOf i.1

def Flag.forms (f : Flag) : List (Bytes × Bytes) :=
  (Bytes.ofString "--" ++ f.name, f.usage) :: f.letter.toList.map fun l => ([dash, l], f.usage)

def suggestFlags (c : Command) (given : Arguments) (typed : Bytes) : Suggestions :=
  let missing := c.suggestedFlags.filter fun f => (given.value? f.name).isNone
  ⟨startingWith typed (missing.flatMap Flag.forms), .noFiles⟩

def suggestWords (c : Command) (commands : Bool) (given : List Bytes) (typed : Bytes) : Suggestions :=
  let own := if commands ∧ given = [] then c.below else []
  match c with
  | .help =>
    match findCommand given with
    | .ok (topic, _) => ⟨startingWith typed topic.below, .noFiles⟩
    | .error _ => ⟨[], .noFiles⟩
  | .completion | .script _ => ⟨startingWith typed own, .noFiles⟩
  | _ => ⟨startingWith typed own, if own = [] then .files else .noFiles⟩

def flagsMayFollow (flags : List Flag) (args : List Bytes) (given : Arguments) : Bool :=
  match readArguments flags .empty (args ++ [[dash, dash]]) with
  | .ok a => a.rest.length ≤ given.rest.length
  | .error _ => true

def suggestFor (c : Command) (args : List Bytes) (typed : Bytes) : Suggestions :=
  let t := Typing.of c.flags args typed
  match readArguments c.flags .empty t.args with
  | .error _ => .empty
  | .ok a =>
    let flags := flagsMayFollow c.flags t.args a
    if t.unknown ∧ flags then .empty
    else if (a.value? "help").isSome then ⟨[], .noFiles⟩
    else if t.flag.isSome then if flags then .empty else suggestWords c false a.rest t.typed
    else if t.typed.head? = some dash ∧ equals ∉ t.typed ∧ flags then suggestFlags c a t.typed
    else suggestWords c true a.rest t.typed

def suggest (args : List Bytes) (typed : Bytes) : Suggestions :=
  match findCommand args with
  | .error _ => .empty
  | .ok (.suggest d, _) =>
    if typed.head? = some dash ∧ equals ∉ typed then suggestFlags (.suggest d) .empty typed else .empty
  | .ok (c, rest) => suggestFor c rest typed

end CircuitDesk.CommandLine
