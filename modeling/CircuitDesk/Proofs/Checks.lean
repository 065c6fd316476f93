import CircuitDesk.Program.Report
import CircuitDesk.Proofs.Representable
import CircuitDesk.Proofs.Values

namespace CircuitDesk

open Bytes (Quotable)
open CircuitDesk.Tree (Fresh bind_eq_ok fresh_cons)

theorem Declaration.check_eq_ok {list : Bytes} {owner : Owner} {seen : List Wire} {ds : List Declaration} :
    Declaration.check list owner seen ds = .ok () ↔
      (∀ d ∈ ds, 0 ≤ d.wire) ∧ Fresh seen (ds.map Declaration.wire) := by
  induction ds generalizing seen with
  | nil => simp [Declaration.check, Tree.fresh_nil]
  | cons d ds ih =>
    simp only [Declaration.check, List.map_cons, fresh_cons, List.mem_cons, forall_eq_or_imp, ← Int64.not_lt]
    by_cases hneg : d.wire < 0
    · simp [hneg]
    · by_cases hmem : d.wire ∈ seen
      · simp [hneg, hmem]
      · rw [if_neg hneg, if_neg hmem, ih]
        simp [hneg, hmem, Int64.not_lt]

namespace Gate

def Meaningful : Gate → Prop
  | named op _ _ _ => op.isKnown
  | rotation op _ _ _ => op.isKnown
  | call c => 1 ≤ c.repetitions ∧ c.name ≠ []
  | init .. => True
  | comment .. => True

def Written : Gate → Prop
  | named _ _ _ control => control.refs ≠ [] ∨ control.noControl
  | rotation _ _ step _ => step.isFinite
  | init _ _ label => Quotable label
  | comment text labels => Quotable text ∧ ∀ l ∈ labels, Quotable l.label
  | call c => Quotable c.name ∧ Quotable c.shape

theorem offence_eq_none {owner : Owner} {i : Nat} {g : Gate} :
    g.offence owner i = none ↔ (∀ w ∈ g.wires, 0 ≤ w) ∧ g.Meaningful := by
  have hwires : g.wires.find? (· < 0) = none ↔ ∀ w ∈ g.wires, 0 ≤ w := by
    simp [List.find?_eq_none, Int64.not_lt]
  cases hfind : g.wires.find? (· < 0) with
  | some w =>
    simp only [offence, hfind, reduceCtorEq, false_iff]
    rintro ⟨h, -⟩
    rw [hwires.mpr h] at hfind
    cases hfind
  | none =>
    rw [and_iff_right (hwires.mp hfind)]
    cases g with
    | named op inverted w control => simp [offence, hfind, Meaningful]
    | rotation op inverted step w => simp [offence, hfind, Meaningful]
    | init value w label => simp [offence, hfind, Meaningful]
    | comment text labels => simp [offence, hfind, Meaningful]
    | call c =>
      simp only [offence, hfind, Meaningful]
      by_cases hcount : c.repetitions < 1
      · simp [hcount, Int64.not_le.mpr hcount]
      · simp [hcount, Int64.not_lt.mp hcount]

theorem mem_firstOccurrences {α : Type} [DecidableEq α] {a : α} {as : List α} :
    a ∈ firstOccurrences as ↔ a ∈ as := by
  induction as with
  | nil => rfl
  | cons b as ih =>
    by_cases h : a = b
    · simp [firstOccurrences, h]
    · simp [firstOccurrences, h, ih]

theorem representable_iff {g : Gate} :
    g.Representable ↔ g.Written ∧ g.Meaningful ∧ ∀ w ∈ g.wires, 0 ≤ w := by
  cases g with
  | named op inverted w control =>
    simp only [Representable, Written, Meaningful, wires, Control.Representable, Control.wires, List.mem_cons,
      List.mem_map, forall_eq_or_imp, forall_exists_index, and_imp, forall_apply_eq_imp_iff₂]
    constructor
    · rintro ⟨hop, hw, hrefs, hsome⟩
      exact ⟨hsome, hop, hw, hrefs⟩
    · rintro ⟨hsome, hop, hw, hrefs⟩
      exact ⟨hop, hw, hrefs, hsome⟩
  | rotation op inverted step w =>
    simp only [Representable, Written, Meaningful, wires, List.mem_singleton, forall_eq]
    constructor
    · rintro ⟨hop, hstep, hw⟩
      exact ⟨hstep, hop, hw⟩
    · rintro ⟨hstep, hop, hw⟩
      exact ⟨hop, hstep, hw⟩
  | init value w label =>
    simp [Representable, Written, Meaningful, wires, and_comm]
  | comment text labels =>
    simp only [Representable, Written, Meaningful, wires, List.mem_map, forall_exists_index, and_imp,
      forall_apply_eq_imp_iff₂, true_and]
    constructor
    · rintro ⟨htext, hlabels⟩
      exact ⟨⟨htext, fun l hl => (hlabels l hl).2⟩, fun l hl => (hlabels l hl).1⟩
    · rintro ⟨⟨htext, hlabels⟩, hwires⟩
      exact ⟨htext, fun l hl => ⟨hwires l hl, hlabels l hl⟩⟩
  | call c =>
    have hwires : (∀ w ∈ c.wires, 0 ≤ w) ↔
        (∀ w ∈ c.inputs, 0 ≤ w) ∧ (∀ w ∈ c.outputs, 0 ≤ w) ∧ c.control.Representable := by
      simp only [Call.wires, Control.wires, Control.Representable, List.mem_append, mem_firstOccurrences,
        List.mem_map]
      constructor
      · intro h
        exact ⟨fun w hw => h w (.inl (.inl hw)), fun w hw => h w (.inl (.inr hw)),
          fun r hr => h r.wire (.inr ⟨r, hr, rfl⟩)⟩
      · rintro ⟨hin, hout, hrefs⟩ w ((hw | hw) | ⟨r, hr, rfl⟩)
        · exact hin w hw
        · exact hout w hw
        · exact hrefs r hr
    simp only [Representable, Written, Meaningful, wires, hwires]
    constructor
    · intro h
      exact ⟨⟨h.name_quotable, h.shape_quotable⟩, ⟨h.repetitions_pos, h.name_ne_nil⟩, h.inputs_nonneg,
        h.outputs_nonneg, h.control⟩
    · rintro ⟨⟨hname, hshape⟩, ⟨hcount, hne⟩, hin, hout, hcontrol⟩
      exact ⟨hcount, hne, hname, hshape, hin, hout, hcontrol⟩

end Gate

theorem findSome?_zipIdx_eq_none {α β : Type} {as : List α} {f : α × Nat → Option β} :
    as.zipIdx.findSome? f = none ↔ ∀ i a, as[i]? = some a → f (a, i) = none := by
  rw [List.findSome?_eq_none_iff]
  constructor
  · intro h i a ha
    exact h (a, i) (List.mk_mem_zipIdx_iff_getElem?.mpr ha)
  · rintro h ⟨a, i⟩ hmem
    exact h i a (List.mk_mem_zipIdx_iff_getElem?.mp hmem)

namespace Circuit

structure Valid (c : Circuit) : Prop where
  inputs_nonneg : ∀ d ∈ c.inputs, 0 ≤ d.wire
  inputs_distinct : (c.inputs.map Declaration.wire).Nodup
  outputs_nonneg : ∀ d ∈ c.outputs, 0 ≤ d.wire
  outputs_distinct : (c.outputs.map Declaration.wire).Nodup
  gates : ∀ g ∈ c.gates, (∀ w ∈ g.wires, 0 ≤ w) ∧ g.Meaningful

theorem check_eq_ok {owner : Owner} {c : Circuit} : c.check owner = .ok () ↔ c.Valid := by
  rw [check, bind_eq_ok]
  constructor
  · rintro ⟨_, hin, h⟩
    obtain ⟨_, hout, h⟩ := bind_eq_ok.mp h
    obtain ⟨hinputs, hfresh⟩ := Declaration.check_eq_ok.mp hin
    obtain ⟨houtputs, hfresh'⟩ := Declaration.check_eq_ok.mp hout
    split at h
    · cases h
    · rename_i hnone
      refine ⟨hinputs, hfresh.1, houtputs, hfresh'.1, fun g hg => ?_⟩
      obtain ⟨i, hi⟩ := List.getElem?_of_mem hg
      exact Gate.offence_eq_none.mp (findSome?_zipIdx_eq_none.mp hnone i g hi)
  · intro h
    refine ⟨(), Declaration.check_eq_ok.mpr ⟨h.inputs_nonneg, Tree.fresh_unseen.mpr h.inputs_distinct⟩, ?_⟩
    refine bind_eq_ok.mpr ⟨(), ?_, ?_⟩
    · exact Declaration.check_eq_ok.mpr ⟨h.outputs_nonneg, Tree.fresh_unseen.mpr h.outputs_distinct⟩
    · rw [findSome?_zipIdx_eq_none.mpr]
      intro i g hg
      exact Gate.offence_eq_none.mpr (h.gates g (List.mem_of_getElem? hg))

end Circuit

namespace Program

theorem names_eq_ok {seen : List Bytes} {ss : List Subroutine} :
    check.names seen ss = .ok () ↔ Fresh seen (ss.map Subroutine.name) := by
  induction ss generalizing seen with
  | nil => simp [check.names, Tree.fresh_nil]
  | cons s ss ih =>
    rw [check.names, List.map_cons, fresh_cons]
    by_cases hs : s.name ∈ seen
    · simp [hs]
    · rw [if_neg hs, ih]
      exact ⟨fun h => ⟨hs, h⟩, fun h => h.2⟩

theorem forM_eq_ok {α : Type} {f : α → Checked Unit} {as : List α} :
    as.forM f = .ok () ↔ ∀ a ∈ as, f a = .ok () := by
  induction as with
  | nil => simp [List.forM, pure, Except.pure]
  | cons a as ih =>
    change (f a >>= fun _ => as.forM f) = .ok () ↔ _
    rw [bind_eq_ok]
    simp only [ih, List.mem_cons, forall_eq_or_imp]
    constructor
    · rintro ⟨_, ha, h⟩
      exact ⟨ha, h⟩
    · rintro ⟨ha, h⟩
      exact ⟨(), ha, h⟩

theorem check_eq_ok {p : Program} :
    p.check = .ok () ↔ (p.subroutines.map Subroutine.name).Nodup ∧ p.main.Valid ∧
      ∀ s ∈ p.subroutines, s.circuit.Valid := by
  rw [check, bind_eq_ok]
  constructor
  · rintro ⟨_, hnames, h⟩
    obtain ⟨_, hmain, h⟩ := bind_eq_ok.mp h
    exact ⟨(names_eq_ok.mp hnames).1, Circuit.check_eq_ok.mp hmain,
      fun s hs => Circuit.check_eq_ok.mp (forM_eq_ok.mp h s hs)⟩
  · rintro ⟨hnames, hmain, hsubs⟩
    refine ⟨(), names_eq_ok.mpr (Tree.fresh_unseen.mpr hnames), ?_⟩
    refine bind_eq_ok.mpr ⟨(), Circuit.check_eq_ok.mpr hmain, ?_⟩
    exact forM_eq_ok.mpr fun s hs => Circuit.check_eq_ok.mpr (hsubs s hs)

end Program

theorem Circuit.Representable.valid {c : Circuit} (h : c.Representable) : c.Valid where
  inputs_nonneg := h.inputs.wire_nonneg
  inputs_distinct := h.inputs.distinct
  outputs_nonneg := h.outputs.wire_nonneg
  outputs_distinct := h.outputs.distinct
  gates g hg :=
    have hgate := Gate.representable_iff.mp (h.gates g hg)
    ⟨hgate.2.2, hgate.2.1⟩

theorem Program.Representable.check {p : Program} (h : p.Representable) : p.check = .ok () :=
  Program.check_eq_ok.mpr ⟨h.names_distinct, h.main.valid, fun s hs => (h.subroutines s hs).circuit.valid⟩

end CircuitDesk
