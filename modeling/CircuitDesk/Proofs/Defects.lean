import CircuitDesk.Program.OfTree
import CircuitDesk.Proofs.Overflow

namespace CircuitDesk.Tree

open Bytes (natValue)

inductive Within : Tree → Tree → Prop
  | self {t} : Within t t
  | part {s t rule opening parts} : t ∈ parts → Within s t → Within s (.node rule opening parts)

theorem within_leaf {s : Tree} {t : Token} : Within s (.leaf t) ↔ s = .leaf t := by
  constructor
  · intro h
    cases h
    rfl
  · rintro rfl
    exact .self

theorem within_node {s : Tree} {rule : Rule} {opening : Option Token} {parts : List Tree} :
    Within s (.node rule opening parts) ↔ s = .node rule opening parts ∨ ∃ t ∈ parts, Within s t := by
  constructor
  · intro h
    cases h with
    | self => exact .inl rfl
    | part ht hs => exact .inr ⟨_, ht, hs⟩
  · rintro (rfl | ⟨t, ht, hs⟩)
    · exact .self
    · exact .part ht hs

def Signed (t : Token) : Prop := t.text.head? = some 43 ∨ t.text.head? = some 45

def BadWire (t : Token) : Prop := Signed t ∨ Integer64.bound ≤ natValue t.text

def BadReference (t : Token) : Prop := ¬ Signed t ∨ Integer64.bound ≤ natValue (t.text.drop 1)

def BadCount (t : Token) : Prop := natValue (t.text.drop 1) = 0 ∨ Integer64.bound ≤ natValue (t.text.drop 1)

def BadStep (t : Token) : Prop :=
  Binary64.overflowBound * (Decimal.ofText t.text).quotient.2 ≤ (Decimal.ofText t.text).quotient.1

/-- Two declarations of one wire; the token is the wire of the second. -/
inductive SameWire : Tree → Tree → Token → Prop
  | intro {first second wire wire' more more'} : natValue wire.text = natValue wire'.text →
      SameWire (.node .typeAssignment first (.leaf wire :: more)) (.node .typeAssignment second (.leaf wire' :: more'))
        wire'

inductive SameName : Tree → Tree → Token → Prop
  | intro {first second name name' more more'} : unquoted name = unquoted name' →
      SameName (.node .subroutine first (.leaf name :: more)) (.node .subroutine second (.leaf name' :: more')) name'

/-- What can be wrong with the tree of a rule, and the token at which it is. -/
inductive Defect : Tree → Token → Prop
  | gateName {opening name more} : GateOp.lookup (unquoted name) = none →
      Defect (.node .qgate opening (.leaf name :: more)) name
  | rotationName {opening name more} : RotationOp.lookup (unquoted name) = none →
      Defect (.node .qrot opening (.leaf name :: more)) name
  | timestep {opening name step more} : BadStep step →
      Defect (.node .qrot opening (name :: .leaf step :: more)) step
  | wire {rule opening parts wire} : rule ≠ .signedList → .leaf wire ∈ parts → wire.kind = .integer →
      BadWire wire → Defect (.node rule opening parts) wire
  | reference {opening parts ref} : .leaf ref ∈ parts → BadReference ref →
      Defect (.node .signedList opening parts) ref
  | noControls {opening} : Defect (.node .signedList (some opening) []) opening
  | repetition {opening count more} : BadCount count → Defect (.node .repetition opening (.leaf count :: more)) count
  | duplicateWire {opening parts first second wire} : [first, second].Sublist parts → SameWire first second wire →
      Defect (.node .arity opening parts) wire
  | duplicateName {opening parts first second name} : [first, second].Sublist parts → SameName first second name →
      Defect (.node .program opening parts) name

def Offends (t : Tree) (tok : Token) : Prop := ∃ s, Within s t ∧ Defect s tok

theorem not_offends_leaf {t tok : Token} : ¬ Offends (.leaf t) tok := by
  rintro ⟨s, hs, hdefect⟩
  rw [within_leaf.mp hs] at hdefect
  cases hdefect

theorem offends_node {rule : Rule} {opening : Option Token} {parts : List Tree} {tok : Token} :
    Offends (.node rule opening parts) tok ↔
      Defect (.node rule opening parts) tok ∨ ∃ t ∈ parts, Offends t tok := by
  simp only [Offends, within_node]
  constructor
  · rintro ⟨s, rfl | ⟨t, ht, hs⟩, hdefect⟩
    · exact .inl hdefect
    · exact .inr ⟨t, ht, s, hs, hdefect⟩
  · rintro (hdefect | ⟨t, ht, s, hs, hdefect⟩)
    · exact ⟨_, .inl rfl, hdefect⟩
    · exact ⟨s, .inr ⟨t, ht, hs⟩, hdefect⟩

theorem offends_leaves {rule : Rule} {opening : Option Token} {ts : List Token} {tok : Token} :
    Offends (.node rule opening (ts.map .leaf)) tok ↔ Defect (.node rule opening (ts.map .leaf)) tok := by
  rw [offends_node]
  refine or_iff_left ?_
  rintro ⟨t, ht, h⟩
  obtain ⟨u, -, rfl⟩ := List.mem_map.mp ht
  exact not_offends_leaf h

end CircuitDesk.Tree
