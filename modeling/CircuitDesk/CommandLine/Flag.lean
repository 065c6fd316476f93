import CircuitDesk.Bytes.Quoted
import CircuitDesk.Duration
import CircuitDesk.Numeral

namespace CircuitDesk.CommandLine

inductive FlagType where
  | bool
  | int
  | string
  | duration
deriving DecidableEq, Repr

def FlagType.word : FlagType → Bytes
  | bool => ""
  | int => "int"
  | string => "string"
  | duration => "duration"

structure Flag where
  name : Bytes
  letter : Option UInt8
  type : FlagType
  usage : Bytes
  initial : Bytes
deriving DecidableEq, Repr

inductive FlagValue where
  | bool (b : Bool)
  | int (n : Int64)
  | string (s : Bytes)
  | duration (d : Duration)
deriving DecidableEq, Repr

inductive ValueFault where
  | int (source : Bytes) (cause : Numeral.Cause)
  | bool (source : Bytes)
  | duration (source : Bytes) (cause : Duration.Cause)
deriving DecidableEq, Repr

def ValueFault.text : ValueFault → Bytes
  | int s c => Bytes.ofString "strconv.ParseInt: parsing " ++ Bytes.quoted s ++ ": " ++ c.text
  | bool s => Bytes.ofString "strconv.ParseBool: parsing " ++ Bytes.quoted s ++ ": invalid syntax"
  | duration s c => c.message s

inductive FlagFault where
  | unknown (name : Bytes)
  | unknownLetter (letter : UInt8) (letters : Bytes)
  | badForm (arg : Bytes)
  | missingValue (arg : Bytes)
  | missingLetterValue (letter : UInt8) (letters : Bytes)
  | badValue (flag : Flag) (value : Bytes) (fault : ValueFault)
deriving DecidableEq, Repr

def Flag.shown (f : Flag) : Bytes :=
  match f.letter with
  | some l => Bytes.ofString "-" ++ [l] ++ ", --" ++ f.name
  | none => Bytes.ofString "--" ++ f.name

def quotedLetter (b : UInt8) : Bytes :=
  let body := if b = 39 then [92, 39] else if b = 34 then [34] else Bytes.escapeChar (Char.ofNat b.toNat)
  [39] ++ body ++ [39]

def FlagFault.message : FlagFault → Bytes
  | unknown name => Bytes.ofString "unknown flag: --" ++ name
  | unknownLetter l ls =>
    Bytes.ofString "unknown shorthand flag: " ++ quotedLetter l ++ " in -" ++ ls
  | badForm arg => Bytes.ofString "bad flag syntax: " ++ arg
  | missingValue arg => Bytes.ofString "flag needs an argument: " ++ arg
  | missingLetterValue l ls => Bytes.ofString "flag needs an argument: " ++ quotedLetter l ++ " in -" ++ ls
  | badValue f v e =>
    Bytes.ofString "invalid argument " ++ Bytes.quoted v ++ " for " ++ Bytes.quoted f.shown ++ " flag: " ++
      e.text

def trueTexts : List Bytes := ["1", "t", "T", "TRUE", "true", "True"]

def falseTexts : List Bytes := ["0", "f", "F", "FALSE", "false", "False"]

def readBool (s : Bytes) : Except ValueFault Bool :=
  if trueTexts.any (· = s) then .ok true
  else if falseTexts.any (· = s) then .ok false else .error (.bool s)

def FlagType.read (t : FlagType) (s : Bytes) : Except ValueFault FlagValue :=
  match t with
  | .bool => (readBool s).map .bool
  | .int =>
    match Numeral.readSigned s with
    | .ok n => .ok (.int n)
    | .error c => .error (.int s c)
  | .string => .ok (.string s)
  | .duration =>
    match Duration.parse s with
    | .ok d => .ok (.duration d)
    | .error c => .error (.duration s c)

structure Arguments where
  flags : List (Bytes × FlagValue)
  rest : List Bytes
deriving DecidableEq, Repr

namespace Arguments

def empty : Arguments := ⟨[], []⟩

def value? (a : Arguments) (name : Bytes) : Option FlagValue := a.flags.lookup name

def bool? (a : Arguments) (name : Bytes) : Option Bool :=
  match a.value? name with
  | some (.bool b) => some b
  | _ => none

def int? (a : Arguments) (name : Bytes) : Option Int64 :=
  match a.value? name with
  | some (.int n) => some n
  | _ => none

def string? (a : Arguments) (name : Bytes) : Option Bytes :=
  match a.value? name with
  | some (.string s) => some s
  | _ => none

def duration? (a : Arguments) (name : Bytes) : Option Duration :=
  match a.value? name with
  | some (.duration d) => some d
  | _ => none

def set (a : Arguments) (f : Flag) (value : Bytes) : Except FlagFault Arguments :=
  match f.type.read value with
  | .ok v => .ok { a with flags := (f.name, v) :: a.flags }
  | .error e => .error (.badValue f value e)

def push (a : Arguments) (args : List Bytes) : Arguments := { a with rest := a.rest ++ args }

end Arguments

def trueText : Bytes := "true"

def splitEquals (s : Bytes) : Bytes × Option Bytes :=
  match s.dropWhile (· ≠ 61) with
  | [] => (s, none)
  | _ :: value => (s.takeWhile (· ≠ 61), some value)

inductive FlagStep where
  | done (a : Arguments)
  | next (a : Arguments) (f : Flag) (missing : FlagFault)

def longFlag (flags : List Flag) (a : Arguments) (arg : Bytes) : Except FlagFault FlagStep :=
  let body := arg.drop 2
  if body.head? = some 45 ∨ body.head? = some 61 then .error (.badForm arg)
  else
    let (name, value) := splitEquals body
    match flags.find? (·.name = name), value with
    | none, _ => .error (.unknown name)
    | some f, some v => (a.set f v).map .done
    | some f, none =>
      if f.type = .bool then (a.set f trueText).map .done else .ok (.next a f (.missingValue arg))

def passedLetters : Bytes := "test."

def letterFlags (flags : List Flag) (a : Arguments) (letters : Bytes) : Except FlagFault FlagStep :=
  match letters with
  | [] => .ok (.done a)
  | l :: rest =>
    if passedLetters.isPrefixOf (l :: rest) then .ok (.done a)
    else match flags.find? (·.letter = some l) with
    | none => .error (.unknownLetter l letters)
    | some f =>
      if rest.head? = some 61 ∧ 2 ≤ rest.length then (a.set f (rest.drop 1)).map .done
      else if f.type = .bool then
        match a.set f trueText with
        | .error e => .error e
        | .ok b => letterFlags flags b rest
      else if rest ≠ [] then (a.set f rest).map .done
      else .ok (.next a f (.missingLetterValue l letters))

def readArguments (flags : List Flag) (a : Arguments) : List Bytes → Except FlagFault Arguments
  | [] => .ok a
  | arg :: more =>
    if arg = [45, 45] then .ok (a.push more)
    else if arg.head? ≠ some 45 ∨ arg.length = 1 then readArguments flags (a.push [arg]) more
    else do
      let step ← if arg.take 2 = [45, 45] then longFlag flags a arg else letterFlags flags a (arg.drop 1)
      match step, more with
      | .done b, more => readArguments flags b more
      | .next _ _ missing, [] => .error missing
      | .next b f _, v :: more =>
        let b ← b.set f v
        readArguments flags b more

end CircuitDesk.CommandLine
