import CircuitDesk.Bytes

namespace CircuitDesk

/-- The rules of the grammar. Those up to `subroutine` can start a parse; the others only occur inside
trees. Numbers outside the table are kept. -/
inductive Rule where
  | program
  | circuit
  | ioStatement
  | arity
  | typeAssignment
  | gate
  | qgate
  | qrot
  | qinit
  | comment
  | wire
  | subroutineCall
  | intList
  | controlApp
  | subroutine
  | inversion
  | repetition
  | wireLabelList
  | signedList
  | terminal
  | unknown (number : Int64)
deriving DecidableEq, Repr

namespace Rule

def name : Rule → Bytes
  | program => "program"
  | circuit => "circuit"
  | ioStatement => "iostatement"
  | arity => "arity"
  | typeAssignment => "typeassignment"
  | gate => "gate"
  | qgate => "qgate"
  | qrot => "qrot"
  | qinit => "qinit"
  | comment => "comment"
  | wire => "wire"
  | subroutineCall => "subroutine_call"
  | intList => "int_list"
  | controlApp => "control_app"
  | subroutine => "subroutine"
  | inversion => "inversion"
  | repetition => "repetition"
  | wireLabelList => "wire_label_list"
  | signedList => "signed_list"
  | terminal => "terminal"
  | unknown n => Bytes.ofString "Rule(" ++ Bytes.ofInt64 n ++ ")"

def entries : List Rule :=
  [program, circuit, ioStatement, arity, typeAssignment, gate, qgate, qrot, qinit, comment, wire,
    subroutineCall, intList, controlApp, subroutine]

def all : List Rule := entries ++ [inversion, repetition, wireLabelList, signedList, terminal]

def isEntry (r : Rule) : Bool := r ∈ entries

def ofNumber (n : Int64) : Rule :=
  if n < 0 then unknown n else (all[n.toInt.toNat]?).getD (unknown n)

def lookup (name : Bytes) : Option (Nat × Rule) :=
  (all.zipIdx.find? (·.1.name = name)).map (fun (r, i) => (i, r))

end Rule

end CircuitDesk
