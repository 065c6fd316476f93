import CircuitDesk.Rule
import CircuitDesk.Gate
import CircuitDesk.Position

namespace CircuitDesk

inductive Owner where
  | main
  | subroutine (name : Bytes)
deriving DecidableEq, Repr

def Owner.ofName (name : Bytes) : Owner := if name = [] then main else subroutine name

def Owner.text : Owner → Bytes
  | main => "main circuit"
  | subroutine name => Bytes.ofString "subroutine " ++ name

/-- Reasons to refuse a program. The first group is found while values are read from the tree, the second
when a finished program is checked as a whole. -/
inductive SemanticCause where
  | unknownGate
  | unknownRotation
  | timestepOutOfRange
  | strayPolarity
  | negativeWire
  | wireOutOfRange
  | missingPolarity
  | noControls
  | badRepetition
  | duplicateWire (wire : Wire) (list : Bytes)
  | duplicateSubroutine
  | undefinedCall
  | misplaced (found wanted : Rule)
  | negativeDeclaredWire (wire : Wire) (list : Bytes) (owner : Owner)
  | duplicateDeclaredWire (wire : Wire) (list : Bytes) (owner : Owner)
  | negativeGateWire (index : Nat) (owner : Owner) (wire : Wire)
  | unknownGateAt (index : Nat) (owner : Owner)
  | unknownRotationAt (index : Nat) (owner : Owner)
  | badRepetitionAt (index : Nat) (owner : Owner) (count : Int64)
  | namelessCallAt (index : Nat) (owner : Owner)
deriving DecidableEq, Repr

namespace SemanticCause

def gateOf (index : Nat) (owner : Owner) : Bytes :=
  Bytes.ofString "gate " ++ Bytes.ofNat index ++ " of " ++ owner.text ++ ": "

def text : SemanticCause → Bytes
  | unknownGate => "unknown gate operation"
  | unknownRotation => "unknown rotation operation"
  | timestepOutOfRange => "timestep out of range"
  | strayPolarity => "polarity is only allowed in a control list"
  | negativeWire => "wire number must not be negative"
  | wireOutOfRange => "wire number out of range"
  | missingPolarity => "control reference needs a + or - polarity"
  | noControls => "control list must not be empty"
  | badRepetition => "repetition count must be a positive integer"
  | duplicateWire w list => Bytes.ofString "duplicate wire " ++ Bytes.ofInt64 w ++ " in " ++ list
  | duplicateSubroutine => "duplicate subroutine definition"
  | undefinedCall => "call to undefined subroutine"
  | misplaced found wanted => found.name ++ " is not a " ++ wanted.name
  | negativeDeclaredWire w list owner =>
    Bytes.ofString "negative wire " ++ Bytes.ofInt64 w ++ " in " ++ list ++ " of " ++ owner.text
  | duplicateDeclaredWire w list owner =>
    Bytes.ofString "duplicate wire " ++ Bytes.ofInt64 w ++ " in " ++ list ++ " of " ++ owner.text
  | negativeGateWire i owner w => gateOf i owner ++ "negative wire " ++ Bytes.ofInt64 w
  | unknownGateAt i owner => gateOf i owner ++ "unknown gate operation"
  | unknownRotationAt i owner => gateOf i owner ++ "unknown rotation operation"
  | badRepetitionAt i owner n =>
    gateOf i owner ++ "repetition count " ++ Bytes.ofInt64 n ++ " is not positive"
  | namelessCallAt i owner => gateOf i owner ++ "subroutine call without a name"

end SemanticCause

structure SemanticFault where
  pos : Position
  literal : Bytes
  cause : SemanticCause
deriving DecidableEq, Repr

end CircuitDesk
