import CircuitDesk.Binary64

namespace CircuitDesk

structure Duration where
  nanoseconds : Int64
deriving DecidableEq, Repr

namespace Duration

def zero : Duration := ⟨0⟩

def microsecond : Nat := 1000

def millisecond : Nat := 1000000

def second : Nat := 1000000000

def ofSeconds (n : Nat) : Duration := ⟨Int64.ofNat (n * second)⟩

def ofMilliseconds (n : Int) : Duration := ⟨Int64.ofInt (n * millisecond)⟩

def fractionText (places n : Nat) : Bytes :=
  let ds := ((Bytes.zeroPadded places n).reverse.dropWhile (· = 48)).reverse
  if ds = [] then [] else Bytes.ofString "." ++ ds

def inUnits (places n : Nat) : Bytes :=
  Bytes.ofNat (n / Decimal.tenPower places) ++
    if places = 0 then [] else fractionText places (n % Decimal.tenPower places)

def magnitudeText (n : Nat) : Bytes :=
  if n = 0 then "0s"
  else if n < microsecond then inUnits 0 n ++ "ns"
  else if n < millisecond then inUnits 3 n ++ "µs"
  else if n < second then inUnits 6 n ++ "ms"
  else
    let minutes := n / (60 * second)
    let hours := minutes / 60
    let seconds := inUnits 9 (n % (60 * second)) ++ "s"
    if minutes = 0 then seconds
    else if hours = 0 then Bytes.ofNat minutes ++ "m" ++ seconds
    else Bytes.ofNat hours ++ "h" ++ Bytes.ofNat (minutes % 60) ++ "m" ++ seconds

def text (d : Duration) : Bytes :=
  let n := d.nanoseconds.toInt
  if n < 0 then 45 :: magnitudeText n.natAbs else magnitudeText n.natAbs

inductive Cause where
  | invalid
  | missingUnit
  | unknownUnit (unit : Bytes)
deriving DecidableEq, Repr

/-- Text between quotes where every byte outside printable ASCII has an escape of its own. -/
def quotedBytes (s : Bytes) : Bytes :=
  Bytes.quote :: s.flatMap escape ++ [Bytes.quote]
where
  escape (b : UInt8) : Bytes :=
    if b < 32 ∨ 128 ≤ b then Bytes.ofString "\\x" ++ Bytes.hex 2 b.toNat
    else if b = 34 ∨ b = 92 then [92, b]
    else [b]

def Cause.message (source : Bytes) : Cause → Bytes
  | invalid => Bytes.ofString "time: invalid duration " ++ quotedBytes source
  | missingUnit => Bytes.ofString "time: missing unit in duration " ++ quotedBytes source
  | unknownUnit u =>
    Bytes.ofString "time: unknown unit " ++ quotedBytes u ++ " in duration " ++ quotedBytes source

def units : List (Bytes × Nat) :=
  [("ns", 1), ("us", microsecond), ("µs", microsecond), ("μs", microsecond), ("ms", millisecond), ("s", second),
    ("m", 60 * second), ("h", 3600 * second)]

def limit : Nat := Integer64.bound

def takeFraction (n scale : Nat) : Bytes → Nat × Nat
  | [] => (n, scale)
  | d :: ds =>
    let m := 10 * n + Bytes.digitValue d
    if n ≤ (limit - 1) / 10 ∧ m ≤ limit then takeFraction m (10 * scale) ds else (n, scale)

/-- `n / scale` units in nanoseconds, computed in floating point and cut to whole nanoseconds. -/
def fractionNanoseconds (n scale unit : Nat) : Nat :=
  let a := Binary64.fraction (Binary64.nearest n 1)
  let b := Binary64.fraction (Binary64.nearest unit scale)
  let c := Binary64.fraction (Binary64.nearest (a.1 * b.1) (a.2 * b.2))
  c.1 / c.2

def isNumberByte (b : UInt8) : Bool := b = 46 || Bytes.isDigit b

def termValue (whole part unit : Bytes) : Except Cause Nat :=
  let v := Bytes.natValue whole
  if limit < v then .error .invalid
  else if whole = [] ∧ part = [] then .error .invalid
  else if unit = [] then .error .missingUnit
  else match units.lookup unit with
    | none => .error (.unknownUnit unit)
    | some u =>
      let (f, scale) := takeFraction 0 1 part
      let n := v * u + if f = 0 then 0 else fractionNanoseconds f scale u
      if limit / u < v ∨ limit < n then .error .invalid else .ok n

theorem unit_ne_nil_of_termValue {whole part unit : Bytes} {n : Nat}
    (h : termValue whole part unit = .ok n) : unit ≠ [] := by
  rintro rfl
  unfold termValue at h
  simp only [if_true] at h
  split at h
  · cases h
  · split at h <;> cases h

def splitNumber (s : Bytes) : Bytes × Bytes × Bytes :=
  match s.dropWhile Bytes.isDigit with
  | [] => (s, [], [])
  | b :: rest =>
    let whole := s.takeWhile Bytes.isDigit
    if b = 46 then (whole, rest.takeWhile Bytes.isDigit, rest.dropWhile Bytes.isDigit)
    else (whole, [], b :: rest)

theorem length_splitNumber_le (s : Bytes) : (splitNumber s).2.2.length ≤ s.length := by
  have h := (List.dropWhile_sublist Bytes.isDigit (l := s)).length_le
  unfold splitNumber
  split
  · simp
  · rename_i b rest hs
    rw [hs] at h
    split
    · have hr := (List.dropWhile_sublist Bytes.isDigit (l := rest)).length_le
      simp only [List.length_cons] at h
      simp only
      omega
    · exact h

def unitOf (s : Bytes) : Bytes := s.takeWhile fun c => !isNumberByte c

def sumTerms (total : Nat) (s : Bytes) : Except Cause Nat :=
  match s with
  | [] => .ok total
  | b :: rest =>
    if isNumberByte b then
      match hs : splitNumber (b :: rest) with
      | (whole, part, later) =>
        match ht : termValue whole part (unitOf later) with
        | .error e => .error e
        | .ok n =>
          have : later.length ≤ (b :: rest).length := by
            have := length_splitNumber_le (b :: rest)
            rwa [hs] at this
          have : 0 < (unitOf later).length := List.length_pos_iff.mpr (unit_ne_nil_of_termValue ht)
          if limit < total + n then .error .invalid
          else sumTerms (total + n) (later.drop (unitOf later).length)
    else .error .invalid
termination_by s.length
decreasing_by
  simp only [List.length_drop, List.length_cons] at *
  omega

def parse (s : Bytes) : Except Cause Duration :=
  let signed := s.head? = some 45 ∨ s.head? = some 43
  let body := if signed then s.drop 1 else s
  if body = [48] then .ok zero
  else if body = [] then .error .invalid
  else
    match sumTerms 0 body with
    | .error e => .error e
    | .ok n =>
      if s.head? = some 45 then .ok ⟨Int64.ofInt (-n)⟩
      else if n < limit then .ok ⟨Int64.ofNat n⟩
      else .error .invalid

end Duration

end CircuitDesk
