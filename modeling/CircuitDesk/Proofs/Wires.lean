import Mathlib.Data.List.Nodup
import CircuitDesk.Proofs.Checks

namespace CircuitDesk

open Gate (mem_firstOccurrences)

theorem nodup_firstOccurrences {α : Type} [DecidableEq α] (as : List α) : (firstOccurrences as).Nodup := by
  induction as with
  | nil => exact List.nodup_nil
  | cons a as ih => exact List.nodup_cons.mpr ⟨by simp, ih.filter _⟩

theorem ascending_mergeSort {α : Type} [LE α] [DecidableLE α] (htrans : ∀ a b c : α, a ≤ b → b ≤ c → a ≤ c)
    (htotal : ∀ a b : α, a ≤ b ∨ b ≤ a) (as : List α) :
    (as.mergeSort fun a b => decide (a ≤ b)).Pairwise (· ≤ ·) := by
  have hsorted : (as.mergeSort fun a b => decide (a ≤ b)).Pairwise fun a b => decide (a ≤ b) = true := by
    refine List.pairwise_mergeSort (fun a b c hab hbc => ?_) (fun a b => ?_) as
    · exact decide_eq_true (htrans a b c (of_decide_eq_true hab) (of_decide_eq_true hbc))
    · simpa using htotal a b
  exact hsorted.imp of_decide_eq_true

namespace Circuit

variable {c c' : Circuit} {w : Wire}

theorem wires_perm (c : Circuit) : c.wires.Perm (firstOccurrences c.mentionedWires) := List.mergeSort_perm _ _

theorem mem_wires : w ∈ c.wires ↔ w ∈ c.mentionedWires := by
  rw [(wires_perm c).mem_iff, mem_firstOccurrences]

theorem wires_nodup (c : Circuit) : c.wires.Nodup :=
  (wires_perm c).nodup_iff.mpr (nodup_firstOccurrences _)

theorem wires_ascending (c : Circuit) : c.wires.Pairwise (· ≤ ·) :=
  ascending_mergeSort (fun _ _ _ => Int64.le_trans) Int64.le_total _

theorem wires_eq_of_ascending {ws : List Wire} (hsorted : ws.Pairwise (· ≤ ·))
    (hperm : ws.Perm (firstOccurrences c.mentionedWires)) : c.wires = ws :=
  ((wires_perm c).trans hperm.symm).eq_of_pairwise (fun _ _ _ _ => Int64.le_antisymm) (wires_ascending c) hsorted

theorem wires_congr (h : ∀ w, w ∈ c.mentionedWires ↔ w ∈ c'.mentionedWires) : c.wires = c'.wires := by
  refine wires_eq_of_ascending (wires_ascending c') ?_
  rw [List.perm_ext_iff_of_nodup (wires_nodup c') (nodup_firstOccurrences _)]
  intro w
  rw [mem_wires, mem_firstOccurrences, h]

theorem wires_of_perm {gates : List Gate} (hperm : gates.Perm c.gates) : { c with gates := gates }.wires = c.wires := by
  refine wires_congr fun w => ?_
  simp only [mentionedWires, List.mem_append, (hperm.flatMap_right Gate.wires).mem_iff]

end Circuit

end CircuitDesk
