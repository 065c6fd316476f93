import CircuitDesk.Proofs.Strings

namespace CircuitDesk

open Bytes (Quotable)
open CircuitDesk.Tree (bind_eq_ok mem_of_mapM unquoted)

def Quoted (w : List Token) : Prop := ∀ t ∈ w, t.kind = .string → Quotable (unquoted t)

theorem Quoted.mono {v w : List Token} (h : Quoted w) (hsub : v ⊆ w) : Quoted v := fun t ht => h t (hsub ht)

theorem Stands.quotable {w : List Token} {s : Bytes} (h : Stands w s) (hw : Quoted w) : Quotable s := by
  rcases h with rfl | ⟨t, ht, hkind, rfl⟩
  · exact fun b hb => by cases hb
  · exact hw t ht hkind

theorem written_gate {w : List Token} {t : Tree} {g : Gate} (h : Grammar.Gate w t) (hw : Quoted w)
    (hg : t.toGate = .ok g) : g.Written := by
  have hread := readFrom_gate h hg
  cases g with
  | named | rotation => exact hread
  | init => exact hread.quotable hw
  | comment => exact ⟨hread.1.quotable hw, fun l hl => (hread.2 l hl).quotable hw⟩
  | call => exact ⟨hread.1.quotable hw, hread.2.quotable hw⟩

theorem declared_of_line {word : Bytes} {w : List Token} {t : Tree} {direction : Direction}
    {ds : List Declaration} (h : Grammar.Declarations word w t) (hread : t.toIoStatement = .ok (direction, ds)) :
    ds ≠ [] ∧ ∀ d ∈ ds, d.type = .qbit ∨ d.type = .cbit := by
  cases h with
  | intro hdirection hcolon hlist =>
    cases hlist with
    | intro hitems =>
      obtain ⟨_, harity, hread⟩ := bind_eq_ok.mp hread
      cases hread
      obtain ⟨hmap, -⟩ := Tree.toDeclarations_eq_ok.mp harity
      refine ⟨?_, fun d hd => ?_⟩
      · rintro rfl
        have hlength := Tree.length_of_mapM hmap
        exact (separated_mem hitems).1 (List.length_eq_zero_iff.mp hlength.symm)
      · obtain ⟨item, hitem, hd⟩ := mem_of_mapM hmap hd
        obtain ⟨v, hv, -⟩ := (separated_mem hitems).2 item hitem
        cases hv with
        | intro =>
          obtain ⟨wire, -, hd⟩ := bind_eq_ok.mp hd
          cases hd
          dsimp only
          split
          · exact .inr rfl
          · exact .inl rfl

theorem representable_circuit {w : List Token} {t : Tree} {c : Circuit} (h : Grammar.Circuit w t) (hw : Quoted w)
    (hread : t.toCircuit = .ok c) (hvalid : c.Valid) : c.Representable := by
  cases h with
  | intro hnl hi hls hnl' hne ho =>
    simp only [Tree.toCircuit, List.cons_append, List.getLast?_concat, List.dropLast_concat] at hread
    obtain ⟨⟨direction, inputs⟩, hin, hread⟩ := bind_eq_ok.mp hread
    obtain ⟨⟨direction', outputs⟩, hout, hread⟩ := bind_eq_ok.mp hread
    obtain ⟨gates, hgates, hread⟩ := bind_eq_ok.mp hread
    cases hread
    obtain ⟨hinputs, hintypes⟩ := declared_of_line hi hin
    obtain ⟨houtputs, houttypes⟩ := declared_of_line ho hout
    refine ⟨⟨hinputs, hvalid.inputs_distinct, hvalid.inputs_nonneg, hintypes⟩, fun g hg => ?_,
      ⟨houtputs, hvalid.outputs_distinct, hvalid.outputs_nonneg, houttypes⟩⟩
    obtain ⟨tree, htree, hgate⟩ := mem_of_mapM hgates hg
    obtain ⟨v, hv, hsub⟩ := lines_mem hls tree htree
    obtain ⟨hwires, hmeaningful⟩ := hvalid.gates g hg
    refine Gate.representable_iff.mpr ⟨written_gate hv (hw.mono fun t ht => ?_) hgate, hmeaningful, hwires⟩
    simp [hsub ht]

theorem representable_subroutine {w : List Token} {t : Tree} {s : Subroutine} (h : Grammar.Subroutine w t)
    (hw : Quoted w) (hread : t.toSubroutine = .ok s) (hvalid : s.circuit.Valid) : s.Representable := by
  cases h with
  | intro _ hname _ _ hshape _ _ _ _ _ hbody =>
    obtain ⟨circuit, hcircuit, hread⟩ := bind_eq_ok.mp hread
    cases hread
    refine ⟨hw _ (by simp) hname, hw _ (by simp) hshape, ?_, ?_⟩
    · dsimp only
      split
      · exact .inl rfl
      · split
        · exact .inr (.inl rfl)
        · exact .inr (.inr rfl)
    · exact representable_circuit hbody (hw.mono fun t ht => by simp [ht]) hcircuit hvalid

theorem representable_program {w : List Token} {t : Tree} {p : Program} (h : Grammar.Program w t) (hw : Quoted w)
    (hread : t.toProgram = .ok p) (hcheck : p.check = .ok ()) : p.Representable := by
  obtain ⟨hnames, hmain, hsubs⟩ := Program.check_eq_ok.mp hcheck
  cases h with
  | intro hc hls =>
    obtain ⟨main, hreadMain, hread⟩ := bind_eq_ok.mp hread
    obtain ⟨subs, hreadSubs, hread⟩ := bind_eq_ok.mp hread
    cases hread
    refine ⟨representable_circuit hc (hw.mono fun t ht => by simp [ht]) hreadMain hmain, fun s hs => ?_, hnames⟩
    obtain ⟨hmap, -⟩ := Tree.toSubroutines_eq_ok.mp hreadSubs
    obtain ⟨tree, htree, hsub⟩ := mem_of_mapM hmap hs
    obtain ⟨v, hv, hsubset⟩ := lines_mem hls tree htree
    exact representable_subroutine hv (hw.mono fun t ht => by simp [hsubset ht]) hsub (hsubs s hs)

end CircuitDesk
