import CircuitDesk.Proofs.Defects
import CircuitDesk.Proofs.Written

namespace CircuitDesk

namespace Tree

mutual

def tokens : Tree → List Token
  | leaf t => [t]
  | node _ opening ts => opening.toList ++ tokensOf ts

def tokensOf : List Tree → List Token
  | [] => []
  | t :: ts => tokens t ++ tokensOf ts

end

theorem tokensOf_subset {ts : List Tree} {w : List Token} : tokensOf ts ⊆ w ↔ ∀ t ∈ ts, t.tokens ⊆ w := by
  induction ts with
  | nil => simp [tokensOf]
  | cons t ts ih => rw [tokensOf, List.append_subset, ih, List.forall_mem_cons]

theorem leaf_subset {t : Token} {w : List Token} : (leaf t).tokens ⊆ w ↔ t ∈ w := by simp [tokens]

theorem node_subset {rule : Rule} {opening : Option Token} {ts : List Tree} {w : List Token} :
    (node rule opening ts).tokens ⊆ w ↔ (∀ t ∈ opening, t ∈ w) ∧ ∀ t ∈ ts, t.tokens ⊆ w := by
  rw [tokens, List.append_subset, tokensOf_subset]
  refine and_congr_left fun _ => ?_
  cases opening <;> simp

theorem leaves_subset {us w : List Token} (h : us ⊆ w) : ∀ t ∈ us.map leaf, t.tokens ⊆ w :=
  List.forall_mem_map.mpr fun _ hu => leaf_subset.mpr (h hu)

section

variable {rule : Rule} {opening : Option Token} {ts : List Tree}

theorem part_subset {t : Tree} (h : t ∈ ts) : t.tokens ⊆ (node rule opening ts).tokens :=
  (node_subset.mp (List.Subset.refl _)).2 t h

theorem mem_tokens_of_leaf {t : Token} (h : leaf t ∈ ts) : t ∈ (node rule opening ts).tokens :=
  leaf_subset.mp (part_subset h)

theorem mem_tokens_of_second {s t : Tree} {tok : Token} (h : [s, t].Sublist ts) (ht : tok ∈ t.tokens) :
    tok ∈ (node rule opening ts).tokens :=
  part_subset (h.subset (List.mem_cons_of_mem s List.mem_cons_self)) ht

end

theorem Within.tokens_subset {s t : Tree} (h : Within s t) : s.tokens ⊆ t.tokens := by
  induction h with
  | self => exact List.Subset.refl _
  | part ht _ ih => exact List.Subset.trans ih (part_subset ht)

theorem Defect.mem_tokens {t : Tree} {tok : Token} (h : Defect t tok) : tok ∈ t.tokens := by
  cases h with
  | gateName => exact mem_tokens_of_leaf List.mem_cons_self
  | rotationName => exact mem_tokens_of_leaf List.mem_cons_self
  | timestep => exact mem_tokens_of_leaf (List.mem_cons_of_mem _ List.mem_cons_self)
  | wire _ hmem => exact mem_tokens_of_leaf hmem
  | reference hmem => exact mem_tokens_of_leaf hmem
  | noControls => simp [tokens]
  | repetition => exact mem_tokens_of_leaf List.mem_cons_self
  | duplicateWire hpair hsame =>
    obtain ⟨-⟩ := hsame
    exact mem_tokens_of_second hpair (mem_tokens_of_leaf List.mem_cons_self)
  | duplicateName hpair hsame =>
    obtain ⟨-⟩ := hsame
    exact mem_tokens_of_second hpair (mem_tokens_of_leaf List.mem_cons_self)

theorem Offends.mem_tokens {t : Tree} {tok : Token} (h : Offends t tok) : tok ∈ t.tokens := by
  obtain ⟨s, hs, hdefect⟩ := h
  exact hs.tokens_subset hdefect.mem_tokens

end Tree

namespace Grammar

open CircuitDesk.Tree (leaf_subset leaves_subset node_subset)
open CircuitDesk.Tree.Reading

theorem tokens_integers {w ts : List Token} (h : Integers w ts) : ts ⊆ w := by
  cases h with
  | none => exact List.Subset.refl _
  | some h =>
    intro t ht
    obtain ⟨v, ⟨rfl, -⟩, hv⟩ := (separated_mem h).2 t ht
    exact hv List.mem_cons_self

theorem tokens_stars {w : List Token} {ts : List Tree} (h : Stars w ts) : ∀ t ∈ ts, t.tokens ⊆ w := by
  cases h with
  | absent => simp
  | present => simp [leaf_subset]

theorem tokens_controlApp {w : List Token} {t : Tree} (h : ControlApp w t) : t.tokens ⊆ w := by
  cases h with
  | none => simp [node_subset, leaf_subset]
  | list _ hrefs =>
    have hin := leaves_subset (tokens_integers hrefs)
    simp only [node_subset, List.forall_mem_cons]
    refine ⟨by simp, ⟨by simp, fun t ht => List.Subset.trans (hin t ht) ?_⟩, by simp⟩
    intro tok htok
    simp [htok]
  | listOnly _ hrefs =>
    have hin := leaves_subset (tokens_integers hrefs)
    simp only [node_subset, List.forall_mem_cons]
    refine ⟨by simp, ⟨by simp, fun t ht => List.Subset.trans (hin t ht) ?_⟩, by simp [leaf_subset], by simp⟩
    intro tok htok
    simp [htok]

theorem tokens_callControl {w : List Token} {t : Tree} (h : CallControl w t) : t.tokens ⊆ w := by
  cases h with
  | absent => exact node_subset.mpr ⟨by simp, by simp⟩
  | present _ h => exact List.subset_cons_of_subset _ (tokens_controlApp h)

theorem tokens_typeAssignment {w : List Token} {t : Tree} (h : TypeAssignment w t) : t.tokens ⊆ w := by
  obtain ⟨-, -, -⟩ := h
  simp [node_subset, leaf_subset]

theorem tokens_declarations {word : Bytes} {w : List Token} {t : Tree} (h : Declarations word w t) :
    t.tokens ⊆ w := by
  obtain ⟨-, -, ⟨hitems⟩⟩ := h
  simp only [node_subset, List.forall_mem_cons]
  refine ⟨by simp, by simp [leaf_subset], ⟨by simp, fun item hitem => ?_⟩, by simp⟩
  obtain ⟨v, hv, hsub⟩ := (separated_mem hitems).2 item hitem
  have hin := List.Subset.trans (tokens_typeAssignment hv) hsub
  exact List.subset_cons_of_subset _ (List.subset_cons_of_subset _ hin)

theorem tokens_wires {w : List Token} {t : Tree} (h : WiresInParens w t) : t.tokens ⊆ w := by
  obtain ⟨-, ⟨hwires⟩, -⟩ := h
  have hin := leaves_subset (tokens_integers hwires)
  refine node_subset.mpr ⟨by simp, fun t ht => List.Subset.trans (hin t ht) ?_⟩
  intro tok htok
  simp [htok]

theorem tokens_labels {w : List Token} {ps : List (Token × Token)} (h : Labels w ps) :
    ∀ p ∈ ps, p.1 ∈ w ∧ p.2 ∈ w := by
  cases h with
  | none => simp
  | some h =>
    intro p hp
    obtain ⟨v, ⟨-, -, -⟩, hv⟩ := (separated_mem h).2 p hp
    exact ⟨hv (by simp), hv (by simp)⟩

theorem tokens_repetition {w : List Token} {ts : List Tree} (h : Repetition w ts) : ∀ t ∈ ts, t.tokens ⊆ w := by
  cases h with
  | absent => simp
  | present => simp [leaf_subset]

theorem tokens_comment {w : List Token} {t : Tree} (h : Comment w t) : t.tokens ⊆ w := by
  obtain ⟨-, -, -, -, hlabels, -⟩ := h
  have hin := tokens_labels hlabels
  simp only [node_subset, List.forall_mem_cons, List.mem_flatMap]
  refine ⟨by simp, by simp [leaf_subset], ⟨by simp, ?_⟩, by simp⟩
  rintro t ⟨p, hp, ht⟩
  simp only [List.mem_cons, List.not_mem_nil, or_false] at ht
  rcases ht with rfl | rfl
  · simp [leaf_subset, (hin p hp).1]
  · simp [leaf_subset, (hin p hp).2]

theorem tokens_call {w : List Token} {t : Tree} (h : SubroutineCall w t) : t.tokens ⊆ w := by
  obtain ⟨-, hcount, hstars, -, -, -, -, -, -, hstars', hinputs, -, houtputs, hcontrol⟩ := h
  have hcounted := tokens_repetition hcount
  have hfirst := tokens_stars hstars
  have hsecond := tokens_stars hstars'
  simp only [node_subset, leaf_subset, List.forall_mem_cons, List.forall_mem_append]
  refine ⟨by simp, ⟨by simp, fun t ht => List.Subset.trans (hcounted t ht) ?_⟩, by simp, by simp,
    ⟨by simp, fun t ht => List.Subset.trans (hfirst t ht) ?_, fun t ht => List.Subset.trans (hsecond t ht) ?_⟩,
    List.Subset.trans (tokens_wires hinputs) ?_, List.Subset.trans (tokens_wires houtputs) ?_,
    List.Subset.trans (tokens_callControl hcontrol) ?_, by simp⟩
  all_goals
    intro tok htok
    simp [htok]

theorem tokens_gate {w : List Token} {t : Tree} (h : Gate w t) : t.tokens ⊆ w := by
  cases h with
  | qgate h =>
    obtain ⟨-, -, -, hstars, -, -, -, -, hcontrol⟩ := h
    simp only [node_subset, leaf_subset, List.forall_mem_cons]
    refine ⟨by simp, by simp, ⟨by simp, fun t ht => List.Subset.trans (tokens_stars hstars t ht) ?_⟩, by simp,
      List.Subset.trans (tokens_controlApp hcontrol) ?_, by simp⟩
    all_goals
      intro tok htok
      simp [htok]
  | qrot h =>
    obtain ⟨-, -, -, -, -, hstars, -, -, -⟩ := h
    simp only [node_subset, leaf_subset, List.forall_mem_cons]
    have hinverted := tokens_stars hstars
    refine ⟨by simp, by simp, by simp, ⟨by simp, fun t ht => List.Subset.trans (hinverted t ht) ?_⟩, by simp,
      by simp⟩
    intro tok htok
    simp [htok]
  | qinit h =>
    obtain ⟨-, -, htarget, -, -, -⟩ := h
    cases htarget with
    | bare => simp [node_subset, leaf_subset]
    | labelled => simp [node_subset, leaf_subset]
  | comment h => exact tokens_comment h
  | call h => exact tokens_call h

theorem tokens_circuit {w : List Token} {t : Tree} (h : Circuit w t) : t.tokens ⊆ w := by
  obtain ⟨-, hinputs, hgates, -, -, houtputs⟩ := h
  simp only [node_subset, List.cons_append, List.forall_mem_cons, List.forall_mem_append]
  refine ⟨by simp, List.Subset.trans (tokens_declarations hinputs) ?_, fun g hg => ?_,
    List.Subset.trans (tokens_declarations houtputs) ?_, by simp⟩
  · intro tok htok
    simp [htok]
  · obtain ⟨v, hv, hsub⟩ := lines_mem hgates g hg
    intro tok htok
    simp [hsub (tokens_gate hv htok)]
  · intro tok htok
    simp [htok]

theorem tokens_subroutine {w : List Token} {t : Tree} (h : Subroutine w t) : t.tokens ⊆ w := by
  obtain ⟨-, -, -, -, -, -, -, -, -, -, hbody⟩ := h
  simp only [node_subset, leaf_subset, List.forall_mem_cons]
  refine ⟨by simp, by simp, by simp, by simp, List.Subset.trans (tokens_circuit hbody) ?_, by simp⟩
  intro tok htok
  simp [htok]

theorem tokens_program {w : List Token} {t : Tree} (h : Program w t) : t.tokens ⊆ w := by
  obtain ⟨hmain, hsubs⟩ := h
  simp only [node_subset, List.forall_mem_cons]
  refine ⟨by simp, List.Subset.trans (tokens_circuit hmain) (List.subset_append_left _ _), fun s hs => ?_⟩
  obtain ⟨v, hv, hsub⟩ := lines_mem hsubs s hs
  have hin := List.Subset.trans (tokens_subroutine hv) hsub
  exact List.Subset.trans hin (List.subset_append_right _ _)

end Grammar

end CircuitDesk
