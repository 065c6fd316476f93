import CircuitDesk.Proofs.Checks
import CircuitDesk.Proofs.Grammar
import CircuitDesk.Proofs.Rounding

namespace CircuitDesk

open CircuitDesk.Tree (bind_eq_ok mem_of_mapM toControl unquoted)
open CircuitDesk.Tree.Reading (Lines Phrase Separated)

def Gate.strings : Gate → List Bytes
  | named .. | rotation .. => []
  | init _ _ label => [label]
  | comment text labels => text :: labels.map WireLabel.label
  | call c => [c.name, c.shape]

def Circuit.strings (c : Circuit) : List Bytes := c.gates.flatMap Gate.strings

def Subroutine.strings (s : Subroutine) : List Bytes := s.name :: s.shape :: s.circuit.strings

def Program.strings (p : Program) : List Bytes := p.main.strings ++ p.subroutines.flatMap Subroutine.strings

def Stands (w : List Token) (s : Bytes) : Prop := s = [] ∨ ∃ t ∈ w, t.kind = .string ∧ unquoted t = s

theorem Stands.mono {v w : List Token} {s : Bytes} (h : Stands v s) (hsub : v ⊆ w) : Stands w s :=
  h.imp_right fun ⟨t, ht, hkind, htext⟩ => ⟨t, hsub ht, hkind, htext⟩

theorem stands_of_mem {w : List Token} {t : Token} (ht : t ∈ w) (hkind : t.kind = .string) : Stands w (unquoted t) :=
  .inr ⟨t, ht, hkind, rfl⟩

theorem separated_mem {α : Type} {L : Phrase α} {w : List Token} {as : List α} (h : Separated L w as) :
    as ≠ [] ∧ ∀ a ∈ as, ∃ v, L v a ∧ v ⊆ w := by
  induction h with
  | one ha =>
    refine ⟨List.cons_ne_nil _ _, fun b hb => ?_⟩
    rw [List.mem_singleton.mp hb]
    exact ⟨_, ha, fun _ h => h⟩
  | cons ha hcomma _ ih =>
    refine ⟨List.cons_ne_nil _ _, fun b hb => ?_⟩
    rcases List.mem_cons.mp hb with rfl | hb
    · exact ⟨_, ha, List.subset_append_left _ _⟩
    · obtain ⟨v, hv, hsub⟩ := ih.2 b hb
      exact ⟨v, hv, fun t ht => List.mem_append_right _ (List.mem_cons_of_mem _ (hsub ht))⟩

theorem lines_infix {α : Type} {L : Phrase α} {w : List Token} {as : List α} (h : Lines L w as) :
    ∀ a ∈ as, ∃ v, L v a ∧ v <:+: w := by
  induction h with
  | nil => exact fun a ha => by cases ha
  | @cons nl v a ws as hnl hne ha _ ih =>
    intro b hb
    rcases List.mem_cons.mp hb with rfl | hb
    · exact ⟨v, ha, nl, ws, rfl⟩
    · obtain ⟨u, hu, hin⟩ := ih b hb
      exact ⟨u, hu, hin.trans (List.suffix_append _ _).isInfix⟩

theorem lines_mem {α : Type} {L : Phrase α} {w : List Token} {as : List α} (h : Lines L w as) :
    ∀ a ∈ as, ∃ v, L v a ∧ v ⊆ w := fun a ha => by
  obtain ⟨v, hv, hin⟩ := lines_infix h a ha
  exact ⟨v, hv, hin.subset⟩

theorem labels_mem {w : List Token} {ps : List (Token × Token)} (h : Grammar.Labels w ps) {p : Token × Token}
    (hp : p ∈ ps) : p.2 ∈ w ∧ p.2.kind = .string := by
  cases h with
  | none => cases hp
  | some h =>
    obtain ⟨v, hv, hsub⟩ := (separated_mem h).2 p hp
    cases hv with
    | intro hwire hcolon hlabel => exact ⟨hsub (by simp), hlabel⟩

theorem control_of_controlApp {w : List Token} {t : Tree} {c : Control} (h : Grammar.ControlApp w t)
    (hc : toControl t = .ok c) : c.refs ≠ [] ∨ c.noControl := by
  have hlist {opening : Token} {refs : List Token} {more : List Tree}
      (hc : toControl (.node .controlApp none (.node .signedList (some opening) (refs.map .leaf) :: more)) = .ok c) :
      c.refs ≠ [] := by
    rw [toControl] at hc
    split at hc
    · cases hc
    · rename_i hne
      obtain ⟨values, hvalues, hc⟩ := bind_eq_ok.mp hc
      cases hc
      have hlength := Tree.length_of_mapM hvalues
      rintro rfl
      exact hne (List.isEmpty_iff.mpr (List.length_eq_zero_iff.mp hlength.symm))
  cases h with
  | none hword =>
    cases hc
    exact .inr rfl
  | list => exact .inl (hlist hc)
  | listOnly => exact .inl (hlist hc)

def Gate.ReadFrom (w : List Token) : Gate → Prop
  | named _ _ _ control => control.refs ≠ [] ∨ control.noControl
  | rotation _ _ step _ => step.isFinite
  | init _ _ label => Stands w label
  | comment text labels => Stands w text ∧ ∀ l ∈ labels, Stands w l.label
  | call c => Stands w c.name ∧ Stands w c.shape

theorem readFrom_gate {w : List Token} {t : Tree} {g : Gate} (h : Grammar.Gate w t) (hg : t.toGate = .ok g) :
    g.ReadFrom w := by
  cases h with
  | qgate h =>
    cases h with
    | intro hopening hname hclose hstars hleft hwire hright hwith hcontrol =>
      simp only [Tree.toGate] at hg
      split at hg
      · cases hg
      · obtain ⟨wire, -, hg⟩ := bind_eq_ok.mp hg
        obtain ⟨c, hc, hg⟩ := bind_eq_ok.mp hg
        cases hg
        exact control_of_controlApp hcontrol hc
  | qrot h =>
    cases h with
    | intro =>
      simp only [Tree.toGate] at hg
      split at hg
      · cases hg
      · split at hg
        · cases hg
        · rename_i hstep
          obtain ⟨wire, -, hg⟩ := bind_eq_ok.mp hg
          cases hg
          exact Binary64.isFinite_of_ofDecimal? hstep
  | qinit h =>
    cases h with
    | intro hword hleft htarget hright hwith hcontrol =>
      cases htarget with
      | bare hwire =>
        obtain ⟨wire, -, hg⟩ := bind_eq_ok.mp hg
        cases hg
        exact .inl rfl
      | labelled hwire hcolon hlabel =>
        obtain ⟨l, hl, hg⟩ := bind_eq_ok.mp hg
        obtain ⟨wire, -, hl⟩ := bind_eq_ok.mp hl
        cases hl
        cases hg
        exact stands_of_mem (by simp) hlabel
  | comment h =>
    cases h with
    | intro hopening htext hclose hleft hlabels hright =>
      simp only [Tree.toGate, Tree.toWireLabels_flat] at hg
      obtain ⟨ls, hls, hg⟩ := bind_eq_ok.mp hg
      cases hg
      refine ⟨stands_of_mem (by simp) htext, fun l hl => ?_⟩
      obtain ⟨p, hp, hread⟩ := mem_of_mapM hls hl
      rw [← (Tree.labelOf_eq_ok.mp hread).2]
      obtain ⟨hmem, hkind⟩ := labels_mem hlabels hp
      exact stands_of_mem (by simp [hmem]) hkind
  | call h =>
    cases h with
    | intro _ _ _ _ hname _ _ hshape =>
      obtain ⟨count, -, hg⟩ := bind_eq_ok.mp hg
      obtain ⟨inputs, -, hg⟩ := bind_eq_ok.mp hg
      obtain ⟨outputs, -, hg⟩ := bind_eq_ok.mp hg
      obtain ⟨control, -, hg⟩ := bind_eq_ok.mp hg
      cases hg
      exact ⟨stands_of_mem (by simp) hname, stands_of_mem (by simp) hshape⟩

theorem strings_gate {w : List Token} {t : Tree} {g : Gate} (h : Grammar.Gate w t) (hg : t.toGate = .ok g) :
    ∀ s ∈ g.strings, Stands w s := by
  have hread := readFrom_gate h hg
  cases g with
  | named | rotation => exact fun s hs => by cases hs
  | init => exact List.forall_mem_singleton.mpr hread
  | comment => exact List.forall_mem_cons.mpr ⟨hread.1, List.forall_mem_map.mpr hread.2⟩
  | call =>
    simp only [Gate.strings, List.forall_mem_cons]
    exact ⟨hread.1, hread.2, by simp⟩

theorem strings_circuit {w : List Token} {t : Tree} {c : Circuit} (h : Grammar.Circuit w t)
    (hread : t.toCircuit = .ok c) : ∀ s ∈ c.strings, Stands w s := by
  cases h with
  | intro hnl hi hls hnl' hne ho =>
    simp only [Tree.toCircuit, List.cons_append, List.getLast?_concat, List.dropLast_concat] at hread
    obtain ⟨_, -, hread⟩ := bind_eq_ok.mp hread
    obtain ⟨_, -, hread⟩ := bind_eq_ok.mp hread
    obtain ⟨gates, hgates, hread⟩ := bind_eq_ok.mp hread
    cases hread
    intro s hs
    obtain ⟨g, hg, hs⟩ := List.mem_flatMap.mp hs
    obtain ⟨tree, htree, hgate⟩ := mem_of_mapM hgates hg
    obtain ⟨v, hv, hsub⟩ := lines_mem hls tree htree
    exact (strings_gate hv hgate s hs).mono fun t ht => by simp [hsub ht]

theorem strings_subroutine {w : List Token} {t : Tree} {u : Subroutine} (h : Grammar.Subroutine w t)
    (hread : t.toSubroutine = .ok u) : ∀ s ∈ u.strings, Stands w s := by
  cases h with
  | intro _ hname _ _ hshape _ _ _ _ _ hbody =>
    obtain ⟨circuit, hcircuit, hread⟩ := bind_eq_ok.mp hread
    cases hread
    simp only [Subroutine.strings, List.forall_mem_cons]
    refine ⟨stands_of_mem (by simp) hname, stands_of_mem (by simp) hshape, fun s hs => ?_⟩
    exact (strings_circuit hbody hcircuit s hs).mono fun t ht => by simp [ht]

theorem strings_program {w : List Token} {t : Tree} {p : Program} (h : Grammar.Program w t)
    (hread : t.toProgram = .ok p) : ∀ s ∈ p.strings, Stands w s := by
  cases h with
  | intro hc hls =>
    obtain ⟨main, hreadMain, hread⟩ := bind_eq_ok.mp hread
    obtain ⟨subs, hreadSubs, hread⟩ := bind_eq_ok.mp hread
    cases hread
    intro s hs
    rcases List.mem_append.mp hs with hs | hs
    · exact (strings_circuit hc hreadMain s hs).mono fun t ht => by simp [ht]
    · obtain ⟨u, hu, hs⟩ := List.mem_flatMap.mp hs
      obtain ⟨hmap, -⟩ := Tree.toSubroutines_eq_ok.mp hreadSubs
      obtain ⟨tree, htree, hsub⟩ := mem_of_mapM hmap hu
      obtain ⟨v, hv, hsubset⟩ := lines_mem hls tree htree
      exact (strings_subroutine hv hsub s hs).mono fun t ht => by simp [hsubset ht]

end CircuitDesk
