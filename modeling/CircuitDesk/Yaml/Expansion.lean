import CircuitDesk.Yaml.Fault

/-!
References let a short document stand for a long one. Whoever reads it counts the parts and gives up if nearly
all of them stand behind references; the longer the reading, the smaller the share that they may have.
-/
namespace CircuitDesk.Yaml

/-- The parts of a document that were read so far, and those among them that stand behind references. -/
structure Expansion where
  parts : Nat
  referred : Nat
deriving DecidableEq, Repr

namespace Expansion

def start : Expansion := ⟨1, 0⟩

def shareUnit : Nat := 360000000

/-- The allowed share: 99 percent of up to 400000 parts and 10 percent of 4000000 parts or more, with a straight
line between them. -/
def allowedShare (parts : Nat) : Nat :=
  if parts ≤ 400000 then 99 * 3600000
  else if 4000000 ≤ parts then 10 * 3600000
  else 99 * 3600000 - 89 * (parts - 400000)

/-- Whether too many parts stand behind references. A few references and short documents are always fine. -/
def isExcessive (e : Expansion) : Bool :=
  100 < e.referred && 1000 < e.parts && allowedShare e.parts * e.parts < e.referred * shareUnit

def count (e : Expansion) (referred : Bool) : Except Fault Expansion :=
  let e : Expansion := ⟨e.parts + 1, if referred then e.referred + 1 else e.referred⟩
  if e.isExcessive then .error (.ofProblem .excessiveReferences) else .ok e

end Expansion

end CircuitDesk.Yaml
