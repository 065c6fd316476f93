import CircuitDesk.Binary64
import CircuitDesk.Numeral
import CircuitDesk.Yaml.Base64
import CircuitDesk.Yaml.Fault
import CircuitDesk.Yaml.Timestamp

namespace CircuitDesk.Yaml

inductive Value where
  | null
  | bool (b : Bool)
  | int (n : Int)
  | float (x : Binary64)
  | timestamp
  | text (s : Bytes)
deriving DecidableEq, Repr

def tagStart : Bytes := "tag:yaml.org,2002:"

def standardTag (name : Bytes) : Bytes := tagStart ++ name

def shownTag (tag : Bytes) : Bytes :=
  if tagStart.isPrefixOf tag then Bytes.ofString "!!" ++ tag.drop tagStart.length else tag

def textTag : Bytes := standardTag "str"

def floatTag : Bytes := standardTag "float"

def nullTag : Bytes := standardTag "null"

def timestampTag : Bytes := standardTag "timestamp"

def binaryTag : Bytes := standardTag "binary"

def mergeTag : Bytes := standardTag "merge"

def sequenceTag : Bytes := standardTag "seq"

def mappingTag : Bytes := standardTag "map"

namespace Value

def tag : Value → Bytes
  | null => nullTag
  | bool _ => standardTag "bool"
  | int _ => standardTag "int"
  | float _ => floatTag
  | timestamp => timestampTag
  | text _ => textTag

def nullWords : List Bytes := ["", "~", "null", "Null", "NULL"]

def trueWords : List Bytes :=
  ["y", "Y", "yes", "Yes", "YES", "true", "True", "TRUE", "on", "On", "ON"]

def falseWords : List Bytes :=
  ["n", "N", "no", "No", "NO", "false", "False", "FALSE", "off", "Off", "OFF"]

def specialFloats : List (Bytes × Binary64) :=
  [(".nan", ⟨0x7FF8000000000001⟩), (".NaN", ⟨0x7FF8000000000001⟩), (".NAN", ⟨0x7FF8000000000001⟩),
    (".inf", ⟨0x7FF0000000000000⟩), (".Inf", ⟨0x7FF0000000000000⟩), (".INF", ⟨0x7FF0000000000000⟩),
    ("+.inf", ⟨0x7FF0000000000000⟩), ("+.Inf", ⟨0x7FF0000000000000⟩), ("+.INF", ⟨0x7FF0000000000000⟩),
    ("-.inf", ⟨0xFFF0000000000000⟩), ("-.Inf", ⟨0xFFF0000000000000⟩), ("-.INF", ⟨0xFFF0000000000000⟩)]

def digits? (s : Bytes) : Option Nat :=
  if s ≠ [] && s.all Bytes.isDigit then some (Bytes.natValue s) else none

def exponent? (s : Bytes) : Option Int :=
  match s with
  | [] => some 0
  | e :: rest =>
    if e = 101 ∨ e = 69 then
      let (negative, ds) := Numeral.splitSign rest
      (digits? ds).map fun n => if negative then -(n : Int) else n
    else none

def decimal? (s : Bytes) : Option Decimal :=
  let (negative, body) := Numeral.splitSign s
  let whole := body.takeWhile Bytes.isDigit
  let rest := body.dropWhile Bytes.isDigit
  let point := rest.head? = some 46
  let part := if point then (rest.drop 1).takeWhile Bytes.isDigit else []
  let later := if point then (rest.drop 1).dropWhile Bytes.isDigit else rest
  if whole = [] ∧ part = [] then none
  else (exponent? later).map fun e => ⟨negative, Bytes.natValue (whole ++ part), e - part.length⟩

def float? (s : Bytes) : Option Binary64 := (decimal? s).bind Binary64.ofDecimal?

def underscoresInDigits (digit : Bool) : Bytes → Bool
  | [] => true
  | b :: rest =>
    if b = Numeral.underscore then
      digit && rest.head?.any Bytes.isDigit && underscoresInDigits false rest
    else underscoresInDigits (Bytes.isDigit b) rest

def withoutUnderscores (s : Bytes) : Bytes := s.filter (· ≠ Numeral.underscore)

def pointFloat? (s : Bytes) : Option Binary64 :=
  if underscoresInDigits false s then float? (withoutUnderscores s) else none

/-- A whole number of 64 bits; one without a sign may use all of them. Behind the sign of base two there may be
another sign. -/
def integer? (s : Bytes) : Option Int :=
  match Numeral.readSigned s, Numeral.readUnsigned s with
  | .ok n, _ => some n.toInt
  | _, .ok n => some (n : Int)
  | _, _ =>
    match if s.take 2 = [48, 98] then Numeral.readBinary (s.drop 2) else .error .invalid with
    | .ok n => some n.toInt
    | .error _ => none

def number? (s : Bytes) : Option Value :=
  let plain := withoutUnderscores s
  match integer? plain, float? plain with
  | some n, _ => some (.int n)
  | none, some x => some (.float x)
  | none, none => none

def startsNumber (s : Bytes) : Bool := s.head?.any fun b => Bytes.isDigit b || Numeral.isSign b

/-- What a plain word stands for; `dates` says whether dates are looked for. -/
def ofWord (dates : Bool) (s : Bytes) : Value :=
  if nullWords.any (· = s) then .null
  else if trueWords.any (· = s) then .bool true
  else if falseWords.any (· = s) then .bool false
  else match specialFloats.lookup s with
    | some x => .float x
    | none =>
      if startsNumber s then if dates && isTimestamp s then .timestamp else (number? s).getD (.text s)
      else if s.head? = some 46 then ((pointFloat? s).map .float).getD (.text s)
      else .text s

def floatOfInt (n : Int) : Binary64 := .ofMagnitude (decide (n < 0)) (Binary64.nearest n.natAbs 1)

def wordTags : List Bytes :=
  [textTag, standardTag "bool", standardTag "int", floatTag, nullTag, timestampTag]

def ofTaggedWord (tag s : Bytes) : Except Fault Value :=
  let v := if tag = textTag then .text s else ofWord (tag = timestampTag) s
  if v.tag = tag then .ok v
  else match v with
    | .int n =>
      if tag = floatTag && n < Integer64.bound then .ok (.float (floatOfInt n))
      else .error (.ofProblem (.wrongTag (shownTag v.tag) s (shownTag tag)))
    | _ => .error (.ofProblem (.wrongTag (shownTag v.tag) s (shownTag tag)))

/-- The value of a scalar with its tag, which is empty if it has none. Other tags than the standard ones leave
the text as it is. -/
def ofScalar (tag : Bytes) (implicit : Bool) (s : Bytes) : Except Fault Value :=
  if tag = [] then .ok (if implicit then ofWord true s else .text s)
  else if wordTags.any (· = tag) then ofTaggedWord tag s
  else if tag = binaryTag then
    match Base64.decode s with
    | some t => .ok (.text t)
    | none => .error (.ofProblem .badBase64)
  else .ok (.text s)

/-- The whole part of a float as a 64-bit number. Nothing is given beyond `2 ^ 63` and for what is no
number; numbers too small, and `2 ^ 63` itself, become the least number. -/
def wholePart? (x : Binary64) : Option Int64 :=
  if x.isNaN then none
  else
    let n := (Binary64.fraction x.magnitude).1 / (Binary64.fraction x.magnitude).2
    if x.negative then some (if x.isFinite ∧ n < Integer64.bound then Int64.ofInt (-n) else Int64.minValue)
    else if !x.isFinite ∨ Integer64.bound < n then none
    else if n = Integer64.bound then some Int64.minValue
    else some (Int64.ofInt n)

end Value

end CircuitDesk.Yaml
