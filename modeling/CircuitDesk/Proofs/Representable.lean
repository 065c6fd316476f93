import CircuitDesk.Program

namespace CircuitDesk

def Bytes.Quotable (s : Bytes) : Prop := ∀ b ∈ s, b ≠ Bytes.quote ∧ b ≠ Bytes.newline

instance (s : Bytes) : Decidable s.Quotable :=
  decidable_of_iff (s.all fun b => b ≠ Bytes.quote && b ≠ Bytes.newline) (by simp [Bytes.Quotable])

open Bytes (Quotable)

structure Declaration.Representable (ds : List Declaration) : Prop where
  nonempty : ds ≠ []
  distinct : (ds.map Declaration.wire).Nodup
  wire_nonneg : ∀ d ∈ ds, 0 ≤ d.wire
  type_known : ∀ d ∈ ds, d.type = .qbit ∨ d.type = .cbit

def Control.Representable (c : Control) : Prop := ∀ r ∈ c.refs, 0 ≤ r.wire

structure Call.Representable (c : Call) : Prop where
  repetitions_pos : 1 ≤ c.repetitions
  name_ne_nil : c.name ≠ []
  name_quotable : Quotable c.name
  shape_quotable : Quotable c.shape
  inputs_nonneg : ∀ w ∈ c.inputs, 0 ≤ w
  outputs_nonneg : ∀ w ∈ c.outputs, 0 ≤ w
  control : c.control.Representable

/-- A named gate always has a control clause. -/
def Gate.Representable : Gate → Prop
  | .named op _ w control =>
    op.isKnown ∧ 0 ≤ w ∧ control.Representable ∧ (control.refs ≠ [] ∨ control.noControl)
  | .rotation op _ step w => op.isKnown ∧ step.isFinite ∧ 0 ≤ w
  | .init _ w label => 0 ≤ w ∧ Quotable label
  | .comment text labels => Quotable text ∧ ∀ l ∈ labels, 0 ≤ l.wire ∧ Quotable l.label
  | .call c => c.Representable

structure Circuit.Representable (c : Circuit) : Prop where
  inputs : Declaration.Representable c.inputs
  gates : ∀ g ∈ c.gates, g.Representable
  outputs : Declaration.Representable c.outputs

structure Subroutine.Representable (s : Subroutine) : Prop where
  name_quotable : Quotable s.name
  shape_quotable : Quotable s.shape
  controllable_known : s.controllable = .yes ∨ s.controllable = .no ∨ s.controllable = .classically
  circuit : s.circuit.Representable

structure Program.Representable (p : Program) : Prop where
  main : p.main.Representable
  subroutines : ∀ s ∈ p.subroutines, s.Representable
  names_distinct : (p.subroutines.map Subroutine.name).Nodup

end CircuitDesk
