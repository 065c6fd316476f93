import CircuitDesk.Circuit

namespace CircuitDesk

/-- Whether a subroutine may be called under controls. Numbers outside the table are kept. -/
inductive Controllable where
  | yes
  | no
  | classically
  | unknown (number : Int64)
deriving DecidableEq, Repr

namespace Controllable

def ofNumber (n : Int64) : Controllable :=
  if n = 0 then yes else if n = 1 then no else if n = 2 then classically else unknown n

def name : Controllable → Bytes
  | yes => "yes"
  | no => "no"
  | classically => "classically"
  | unknown n => Bytes.ofString "Controllable(" ++ Bytes.ofInt64 n ++ ")"

end Controllable

structure Subroutine where
  name : Bytes
  shape : Bytes
  controllable : Controllable
  circuit : Circuit
deriving DecidableEq, Repr

structure NameIndex where
  entries : List (Bytes × Nat)
deriving DecidableEq, Repr

namespace NameIndex

def get? (ix : NameIndex) (name : Bytes) : Option Nat := ix.entries.lookup name

def add (ix : NameIndex) (name : Bytes) (i : Nat) : NameIndex :=
  if (ix.get? name).isSome then ix else ⟨ix.entries ++ [(name, i)]⟩

def ofSubroutines (subs : List Subroutine) : NameIndex :=
  subs.zipIdx.foldl (fun ix (s, i) => ix.add s.name i) ⟨[]⟩

end NameIndex

/-- A main circuit and subroutine definitions. The index makes look-ups by name fast and may be missing. -/
structure Program where
  main : Circuit
  subroutines : List Subroutine
  index : Option NameIndex
deriving DecidableEq, Repr

namespace Program

def indexed (main : Circuit) (subs : List Subroutine) : Program :=
  ⟨main, subs, some (.ofSubroutines subs)⟩

def bare (main : Circuit) (subs : List Subroutine) : Program := ⟨main, subs, none⟩

/-- The definition of a name: through the index if there is one and by search otherwise. -/
def subroutine? (p : Program) (name : Bytes) : Option Subroutine :=
  match p.index with
  | none => p.subroutines.find? (·.name = name)
  | some ix => (ix.get? name).bind (p.subroutines[·]?)

def circuit? (p : Program) (name : Bytes) : Option Circuit :=
  if name = [] then some p.main else (p.subroutine? name).map Subroutine.circuit

end Program

end CircuitDesk
