import CircuitDesk.Bytes

namespace CircuitDesk.Display

inductive EscapeState where
  | ground
  | escape
  | escapeBetween
  | message
  | device
  | deviceParameter
  | deviceBetween
  | deviceString
  | control
  | controlParameter
  | controlBetween
  | system
deriving DecidableEq, Repr

def isCancel (b : UInt8) : Bool := b = 0x18 || b = 0x1A

def isPassed (b : UInt8) : Bool := b = 0x7F || (b < 0x20 && b != 0x1B && !isCancel b)

def isBetween (b : UInt8) : Bool := 0x20 ≤ b && b ≤ 0x2F

def isParameter (b : UInt8) : Bool := 0x30 ≤ b && b ≤ 0x3F

def isFinal (b : UInt8) : Bool := 0x40 ≤ b && b ≤ 0x7E

namespace EscapeState

def anywhere (b : UInt8) : EscapeState :=
  if b = 0x1B then escape
  else if b = 0x90 then device
  else if b = 0x98 || b = 0x9E || b = 0x9F then message
  else if b = 0x9B then control
  else if b = 0x9D then system
  else ground

def afterEscape (b : UInt8) : EscapeState :=
  if b = 0x50 then device
  else if b = 0x58 || b = 0x5E || b = 0x5F then message
  else if b = 0x5B then control
  else if b = 0x5D then system
  else ground

def endsString (b : UInt8) : Bool := b = 0x9C || isCancel b

def next (s : EscapeState) (b : UInt8) : EscapeState :=
  match s with
  | ground => anywhere b
  | escape =>
    if isPassed b then escape
    else if isBetween b then escapeBetween
    else if isParameter b || isFinal b then afterEscape b
    else anywhere b
  | escapeBetween => if isPassed b || isBetween b then escapeBetween else anywhere b
  | message => if b < 0x80 && b != 0x1B && !isCancel b then message else anywhere b
  | device =>
    if b = 0x1B || (0x08 ≤ b && b ≤ 0x0D) then deviceString
    else if isPassed b then device
    else if isBetween b then deviceBetween
    else if isParameter b then deviceParameter
    else if isFinal b then deviceString
    else anywhere b
  | deviceParameter =>
    if isPassed b || isParameter b then deviceParameter
    else if isBetween b then deviceBetween
    else if isFinal b then deviceString
    else anywhere b
  | deviceBetween =>
    if isPassed b || isBetween b then deviceBetween
    else if isParameter b || isFinal b then deviceString
    else anywhere b
  | deviceString => if b = 0x1B then escape else if endsString b then ground else deviceString
  | control =>
    if isPassed b then control
    else if isBetween b then controlBetween
    else if isParameter b then controlParameter
    else anywhere b
  | controlParameter =>
    if isPassed b || isParameter b then controlParameter
    else if isBetween b then controlBetween
    else anywhere b
  | controlBetween => if isPassed b || isBetween b then controlBetween else anywhere b
  | system => if b = 0x1B then escape else if b = 0x07 || endsString b then ground else system

def isHighControl (b : UInt8) : Bool := (0x80 ≤ b && b ≤ 0x97 && b != 0x90) || b = 0x99 || b = 0x9A

/-- Whether a control is carried out in a state. Strings take most controls as their text, and device commands
pass over the basic ones. -/
def executes (s : EscapeState) (b : UInt8) : Bool :=
  let breaking := isHighControl b || endsString b
  match s with
  | deviceString | system => false
  | message => isHighControl b
  | device | deviceParameter | deviceBetween => breaking
  | ground => breaking || isPassed b
  | escape | escapeBetween | control | controlParameter | controlBetween =>
    breaking || (isPassed b && b != 0x7F)

def hidesCharacters (s : EscapeState) : Bool := s = deviceString || s = system

end EscapeState

end CircuitDesk.Display
