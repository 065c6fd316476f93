import CircuitDesk.Proofs.Cells
import CircuitDesk.Proofs.Characters

namespace CircuitDesk

open Bytes (IsControl NoControls Visible visible_ofInt64)

def Gate.Lacks (b : UInt8) : Gate → Prop
  | .call c => b ∉ c.name
  | .comment _ labels => ∀ l ∈ labels, b ∉ l.label
  | _ => True

instance (b : UInt8) : DecidablePred (Gate.Lacks b)
  | .call c => inferInstanceAs (Decidable (b ∉ c.name))
  | .comment _ labels => inferInstanceAs (Decidable (∀ l ∈ labels, b ∉ l.label))
  | .named .. | .rotation .. | .init .. => isTrue trivial

namespace Drawing

variable {c : Circuit} {g : Gate} {gates : List Gate} {cell : Cell} {row : Wire → Nat} {r : Nat} {b : UInt8}

inductive Mark.Stems (gates : List Gate) : Mark → Prop
  | wire : Stems gates .wire
  | crossing : Stems gates .crossing
  | painted {g : Gate} {m : Wire × Mark} : g ∈ gates → m ∈ marks g → Stems gates m.2

open Mark (Stems)

theorem stems_markCell {ms : List (Wire × Mark)} (hms : ∀ m ∈ ms, Stems gates m.2) (h : Stems gates cell.mark) :
    Stems gates (markCell row ms r cell).mark := by
  induction ms generalizing cell with
  | nil => exact h
  | cons m ms ih =>
    obtain ⟨hm, hms⟩ := List.forall_mem_cons.mp hms
    rw [markCell, List.foldl_cons]
    refine ih hms ?_
    split
    · exact hm
    · exact h

theorem stems_linkCell {s : Span} (h : Stems gates cell.mark) : Stems gates (linkCell s r cell).mark := by
  unfold linkCell
  split
  · dsimp only
    split
    · exact .crossing
    · exact h
  · exact h

theorem stems_paintCell (hg : g ∈ gates) (h : Stems gates cell.mark) : Stems gates (paintCell row g r cell).mark := by
  have hmarked : Stems gates (markCell row (marks g) r cell).mark := stems_markCell (fun m hm => .painted hg hm) h
  unfold paintCell
  cases g.span? row with
  | none => exact hmarked
  | some s =>
    dsimp only
    split
    · exact stems_linkCell hmarked
    · exact hmarked

theorem stems_painted {gs : List Gate} (hgs : gs ⊆ gates) (h : Stems gates cell.mark) :
    Stems gates (gs.foldl (fun cell g => paintCell row g r cell) cell).mark := by
  induction gs generalizing cell with
  | nil => exact h
  | cons g gs ih =>
    obtain ⟨hg, hgs⟩ := List.cons_subset.mp hgs
    exact ih hgs (stems_paintCell hg h)

theorem stems_row (c : Circuit) (shown r : Nat) :
    ∀ cell ∈ (cells c shown).map fun cells => (cells[r]?).getD .blank, Stems c.gates cell.mark := by
  intro cell hcell
  obtain ⟨column, hcolumn, rfl⟩ := List.mem_map.mp hcell
  obtain ⟨col, -, rfl⟩ := List.mem_map.mp hcolumn
  have hgates : col.filterMap (c.gates[·]?) ⊆ c.gates := by
    intro g hg
    obtain ⟨i, -, hg⟩ := List.mem_filterMap.mp hg
    exact List.mem_of_getElem? hg
  rw [getElem?_column]
  split
  · exact stems_painted hgates .wire
  · exact .wire

def Mark.Lacks (b : UInt8) : Mark → Prop
  | .box text _ => b ∉ text
  | .label text => b ∉ text
  | .target symbol => b ∉ symbol
  | _ => True

theorem visible_boxText {name : Bytes} (h : Visible name) (inverted : Bool) : Visible (boxText name inverted) := by
  cases inverted with
  | false => exact h.append (b := []) (by decide)
  | true => exact h.append (b := [42]) (by decide)

theorem visible_rotationName (op : RotationOp) : Visible (rotationName op) := by
  unfold rotationName
  split <;> decide

theorem visible_wireLabel (c : Circuit) (w : Wire) : Visible (c.wireLabel w) := by
  have hletter : Visible (c.typeLetter w) := by
    unfold Circuit.typeLetter
    split <;> decide
  exact ((visible_ofInt64 w).append (by decide)).append hletter

theorem not_mem_callText {call : Call} (hb : IsControl b) (h : b ∉ call.name) : b ∉ callText call := by
  have hcount : Visible (if 1 < call.repetitions then Bytes.ofInt64 call.repetitions ++ "x" else []) := by
    split
    · exact (visible_ofInt64 _).append (by decide)
    · decide
  have hstar : Visible (if call.inverted then [42] else []) := by
    split <;> decide
  simp only [callText, List.mem_append, not_or]
  exact ⟨⟨hcount.noControls.lacks hb, h⟩, hstar.noControls.lacks hb⟩

theorem lacks_targetMark (hb : IsControl b) (op : GateOp) (inverted : Bool) (control : Control) :
    (targetMark op inverted control).Lacks b := by
  have hcross : NoControls "×" := by decide
  have hplus : NoControls "⊕" := by decide
  unfold targetMark
  split
  · exact hcross.lacks hb
  · split
    · exact hplus.lacks hb
    · exact (visible_boxText (Bytes.visible_opName op) inverted).noControls.lacks hb

theorem lacks_of_mark (hb : IsControl b) (hg : g.Lacks b) {m : Wire × Mark} (hm : m ∈ marks g) : m.2.Lacks b := by
  cases g with
  | named op inverted w control =>
    simp only [marks, controlMarks, List.mem_cons, List.mem_map] at hm
    obtain rfl | ⟨ref, -, rfl⟩ := hm
    · exact lacks_targetMark hb op inverted control
    · trivial
  | rotation op inverted timestep w =>
    cases List.mem_singleton.mp hm
    exact (visible_boxText (visible_rotationName op) inverted).noControls.lacks hb
  | init value w label =>
    cases List.mem_singleton.mp hm
    trivial
  | comment text labels =>
    obtain ⟨label, hlabel, rfl⟩ := List.mem_map.mp hm
    exact hg label hlabel
  | call call =>
    simp only [marks, controlMarks, List.mem_append, List.mem_map] at hm
    obtain ⟨w, -, rfl⟩ | ⟨ref, -, rfl⟩ := hm
    · exact not_mem_callText hb hg
    · trivial

theorem Mark.Stems.lacks {mark : Mark} (h : Stems gates mark) (hb : IsControl b) (hgates : ∀ g ∈ gates, g.Lacks b) :
    mark.Lacks b := by
  cases h with
  | wire => trivial
  | crossing => trivial
  | painted hg hm => exact lacks_of_mark hb (hgates _ hg) hm

end Drawing

end CircuitDesk
