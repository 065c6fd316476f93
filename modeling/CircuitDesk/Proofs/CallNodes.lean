import CircuitDesk.Program.OfTree
import CircuitDesk.Proofs.CallSites
import CircuitDesk.Proofs.Grammar.Lacking
import CircuitDesk.Proofs.Written

/-!
The calls in the tree of a program. Their nodes follow the words `Subroutine` of the source one by one, and they are
read as the calls of the program in the same order.
-/
namespace CircuitDesk

namespace Tree

def callsAmong (statements : List Tree) : List Tree := statements.filter (·.rule = .subroutineCall)

def bodyParts (s : Tree) : List Tree := (s.parts.getLast?.map parts).getD []

def callNodes : Tree → List Tree
  | .node .program _ (main :: subs) => callsAmong main.parts ++ subs.flatMap fun s => callsAmong s.bodyParts
  | _ => []

theorem callPositions_eq (t : Tree) : t.callPositions = t.callNodes.map pos := by
  rw [callPositions.eq_def]
  split
  · simp only [callNodes, List.map_append, List.map_flatMap]
    rfl
  · rename_i hother
    rw [callNodes.eq_def]
    split
    · rename_i opening main subs
      exact (hother opening main subs rfl).elim
    · rfl

def calledName : Tree → Bytes
  | .node .subroutineCall _ (_ :: .leaf name :: _) => unquoted name
  | _ => []

end Tree

def Gate.called? : Gate → Option Bytes
  | .call k => some k.name
  | _ => none

def Circuit.called (c : Circuit) : List Bytes := c.gates.filterMap Gate.called?

theorem Circuit.called_eq (c : Circuit) : c.called = c.calls.map fun k => k.2.name := by
  have hgates : c.gates = c.gates.zipIdx.map Prod.fst := by rw [List.zipIdx_map_fst]
  rw [called, hgates, List.filterMap_map, calls, List.map_filterMap]
  congr 1
  funext p
  obtain ⟨g, i⟩ := p
  cases g <;> rfl

theorem Program.walk_names (p : Program) :
    p.walk.map (fun c => c.2.2) = p.main.called ++ p.subroutines.flatMap fun s => s.circuit.called := by
  simp only [walk, Circuit.walk_eq, Circuit.called_eq, List.map_append, List.map_map, List.map_flatMap,
    Function.comp_def]

namespace Tree

theorem called_of_toGate {t : Tree} {g : Gate} (h : t.toGate = .ok g) :
    g.called? = if t.rule = .subroutineCall then some t.calledName else none := by
  rw [toGate.eq_def] at h
  split at h
  · split at h
    · cases h
    · obtain ⟨w, hw, h⟩ := bind_eq_ok.mp h
      obtain ⟨c, hc, h⟩ := bind_eq_ok.mp h
      cases h
      rfl
  · split at h
    · cases h
    · split at h
      · cases h
      · obtain ⟨w, hw, h⟩ := bind_eq_ok.mp h
        cases h
        rfl
  · obtain ⟨w, hw, h⟩ := bind_eq_ok.mp h
    cases h
    rfl
  · obtain ⟨l, hl, h⟩ := bind_eq_ok.mp h
    cases h
    rfl
  · obtain ⟨ls, hls, h⟩ := bind_eq_ok.mp h
    cases h
    rfl
  · obtain ⟨n, hn, h⟩ := bind_eq_ok.mp h
    obtain ⟨inputs, hinputs, h⟩ := bind_eq_ok.mp h
    obtain ⟨outputs, houtputs, h⟩ := bind_eq_ok.mp h
    obtain ⟨c, hc, h⟩ := bind_eq_ok.mp h
    cases h
    rfl
  · cases h

theorem called_of_gates {ts : List Tree} {gs : List Gate} (h : ts.mapM toGate = .ok gs) :
    gs.filterMap Gate.called? = (callsAmong ts).map calledName := by
  induction ts generalizing gs with
  | nil =>
    rw [mapM_nil_eq_ok.mp h]
    rfl
  | cons t ts ih =>
    obtain ⟨g, later, hg, hlater, rfl⟩ := mapM_cons_eq_ok.mp h
    rw [List.filterMap_cons, called_of_toGate hg, ih hlater, callsAmong, callsAmong, List.filter_cons]
    by_cases hrule : t.rule = .subroutineCall
    · simp [hrule]
    · simp [hrule]

end Tree

namespace Grammar

open Token (Kind)
open CircuitDesk.Tree (callsAmong)
open CircuitDesk.Tree.Reading

def isCallWord (t : Token) : Bool := t.is .keyword "Subroutine"

def NoCalls (w : List Token) : Prop := Lacks .keyword "Subroutine" w

theorem filter_noCalls {w : List Token} (h : NoCalls w) : w.filter isCallWord = [] := filter_lacks h

theorem noCalls_stars {w : List Token} {ts : List Tree} (h : Stars w ts) : NoCalls w := by
  cases h with
  | absent => exact lacks_nil
  | present h => exact lacks_cons.mpr ⟨is_eq_false h (by decide), lacks_nil⟩

theorem noCalls_qgate {w : List Token} {t : Tree} (h : QGate w t) : NoCalls w := by
  obtain ⟨hopening, hname, hclose, hstars, hleft, hwire, hright, hwith, hcontrol⟩ := h
  simp only [NoCalls, lacks_cons, lacks_append, List.cons_append]
  exact ⟨other_word counted_call hopening (by decide), other_kind counted_call hname (by decide),
    other_word counted_call hclose (by decide), noCalls_stars hstars, other_word counted_call hleft (by decide),
    other_kind counted_call hwire (by decide), other_word counted_call hright (by decide),
    other_word counted_call hwith (by decide), lacks_controlApp counted_call hcontrol⟩

theorem noCalls_qrot {w : List Token} {t : Tree} (h : QRot w t) : NoCalls w := by
  obtain ⟨hopening, hname, hcomma, hstep, hclose, hstars, hleft, hwire, hright⟩ := h
  simp only [NoCalls, lacks_cons, lacks_append, List.cons_append]
  exact ⟨other_word counted_call hopening (by decide), other_kind counted_call hname (by decide),
    other_word counted_call hcomma (by decide), other_kind counted_call hstep (by decide),
    other_word counted_call hclose (by decide), noCalls_stars hstars, other_word counted_call hleft (by decide),
    other_kind counted_call hwire (by decide), other_word counted_call hright (by decide), lacks_nil⟩

theorem callWords_call {w : List Token} {t : Tree} (h : SubroutineCall w t) :
    ∃ opening ts, t = .node .subroutineCall (some opening) ts ∧ w.filter isCallWord = [opening] := by
  obtain ⟨hopening, hcount, hstars, hleft, hname, hcomma, hsw, hshape, hright, hstars', hinputs, harrow,
    houtputs, hcontrol⟩ := h
  refine ⟨_, _, rfl, ?_⟩
  have hcall : isCallWord _ = true := hopening
  simp only [List.cons_append]
  rw [List.filter_cons_of_pos hcall, filter_noCalls]
  simp only [NoCalls, lacks_cons, lacks_append, List.append_assoc, List.cons_append]
  exact ⟨lacks_repetition counted_call hcount, noCalls_stars hstars, other_word counted_call hleft (by decide),
    other_kind counted_call hname (by decide), other_word counted_call hcomma (by decide),
    other_word counted_call hsw (by decide), other_kind counted_call hshape (by decide),
    other_word counted_call hright (by decide), noCalls_stars hstars', lacks_wiresInParens counted_call hinputs,
    other_kind counted_call harrow (by decide), lacks_wiresInParens counted_call houtputs,
    lacks_callControl counted_call hcontrol⟩

theorem callWords_gate {w : List Token} {t : Tree} (h : Gate w t) :
    (callsAmong [t]).map Tree.firstToken = (w.filter isCallWord).map some := by
  -- neither the tree nor the word of another gate has a call
  have hnone {rule : Rule} {opening : Option Token} {ts : List Tree} (hrule : rule ≠ .subroutineCall)
      (hw : NoCalls w) :
      (callsAmong [.node rule opening ts]).map Tree.firstToken = (w.filter isCallWord).map some := by
    rw [filter_noCalls hw, callsAmong, List.filter_cons_of_neg (by simp [Tree.rule, hrule])]
    rfl
  cases h with
  | qgate h =>
    have hw := noCalls_qgate h
    cases h
    exact hnone (by decide) hw
  | qrot h =>
    have hw := noCalls_qrot h
    cases h
    exact hnone (by decide) hw
  | qinit h =>
    have hw : NoCalls _ := lacks_qinit counted_call h
    cases h
    exact hnone (by decide) hw
  | comment h =>
    have hw : NoCalls _ := lacks_comment counted_call h
    cases h
    exact hnone (by decide) hw
  | call h =>
    obtain ⟨opening, ts, rfl, hw⟩ := callWords_call h
    rw [hw]
    rfl

theorem callsAmong_cons (t : Tree) (ts : List Tree) : callsAmong (t :: ts) = callsAmong [t] ++ callsAmong ts := by
  rw [callsAmong, callsAmong, callsAmong, ← List.filter_append]
  rfl

theorem callWords_gates {w : List Token} {ts : List Tree} (h : Lines Gate w ts) :
    (callsAmong ts).map Tree.firstToken = (w.filter isCallWord).map some := by
  induction h with
  | nil => rfl
  | cons hnl _ hgate _ ih =>
    rw [callsAmong_cons, List.map_append, callWords_gate hgate, ih, List.filter_append, List.filter_append,
      filter_noCalls (lacks_newlines counted_call hnl), List.nil_append, List.map_append]

theorem callsAmong_statements {i o : List Token} {inputs outputs : Tree} {gates : List Tree} {word word' : Bytes}
    (hinputs : Declarations word i inputs) (houtputs : Declarations word' o outputs) :
    callsAmong (inputs :: gates ++ [outputs]) = callsAmong gates := by
  cases hinputs
  cases houtputs
  simp [callsAmong, Tree.rule]

theorem callWords_circuit {w : List Token} {t : Tree} (h : Circuit w t) :
    (callsAmong t.parts).map Tree.firstToken = (w.filter isCallWord).map some := by
  obtain ⟨hnl, hinputs, hgates, hnl', -, houtputs⟩ := h
  rename_i nl i inputs ls gates nl' o outputs
  have hfilter : (nl ++ i ++ ls ++ nl' ++ o).filter isCallWord = ls.filter isCallWord := by
    have hi : NoCalls i := lacks_declarations counted_call (by decide) hinputs
    have ho : NoCalls o := lacks_declarations counted_call (by decide) houtputs
    simp only [List.filter_append, filter_noCalls (lacks_newlines counted_call hnl), filter_noCalls hi,
      filter_noCalls (lacks_newlines counted_call hnl'), filter_noCalls ho, List.nil_append, List.append_nil]
  rw [Tree.parts, callsAmong_statements hinputs houtputs, hfilter, callWords_gates hgates]

theorem callWords_subroutine {w : List Token} {t : Tree} (h : Subroutine w t) :
    (callsAmong t.bodyParts).map Tree.firstToken = (w.filter isCallWord).map some := by
  obtain ⟨hopening, hname, hnl, hshapeWord, hshape, hnl', hcontrolWord, hword, hnl'', -, hbody⟩ := h
  rename_i opening name nl shapeWord shape nl' controlWord controllable nl'' b body
  have hhead : NoCalls (opening :: name :: nl ++ shapeWord :: shape :: nl' ++ controlWord :: controllable :: nl'') := by
    simp only [NoCalls, lacks_cons, lacks_append, List.append_assoc, List.cons_append]
    refine ⟨other_word counted_call hopening (by decide), other_kind counted_call hname (by decide),
      lacks_newlines counted_call hnl, other_word counted_call hshapeWord (by decide),
      other_kind counted_call hshape (by decide), lacks_newlines counted_call hnl',
      other_word counted_call hcontrolWord (by decide), ?_, lacks_newlines counted_call hnl''⟩
    rcases hword with h | h | h <;> exact other_word counted_call h (by decide)
  have hsplit : opening :: name :: nl ++ shapeWord :: shape :: nl' ++ controlWord :: controllable :: nl'' ++ b =
      (opening :: name :: nl ++ shapeWord :: shape :: nl' ++ controlWord :: controllable :: nl'') ++ b := rfl
  rw [hsplit, List.filter_append, filter_noCalls hhead, List.nil_append, ← callWords_circuit hbody]
  rfl

theorem callWords_program {w : List Token} {t : Tree} (h : Program w t) :
    t.callNodes.map Tree.firstToken = (w.filter isCallWord).map some := by
  obtain ⟨hmain, hsubs⟩ := h
  rename_i c main ls subs
  have hbodies : (subs.flatMap fun s => callsAmong s.bodyParts).map Tree.firstToken =
      (ls.filter isCallWord).map some := by
    clear hmain
    -- blank lines between the definitions have no words
    induction hsubs with
    | nil => rfl
    | cons hnl _ hsub _ ih =>
      rw [List.flatMap_cons, List.map_append, callWords_subroutine hsub, ih, List.filter_append, List.filter_append,
        filter_noCalls (lacks_newlines counted_call hnl), List.nil_append, List.map_append]
  rw [Tree.callNodes, List.map_append, callWords_circuit hmain, hbodies, List.filter_append, List.map_append]

theorem callPositions_program {w : List Token} {t : Tree} (h : Program w t) :
    t.callPositions = (w.filter isCallWord).map Token.pos := by
  have hpos : Tree.pos = fun t => (t.firstToken.map Token.pos).getD .unplaced := rfl
  rw [Tree.callPositions_eq, hpos]
  have hwords := congrArg (List.map fun t => (Option.map Token.pos t).getD .unplaced) (callWords_program h)
  simpa only [List.map_map, Function.comp_def, Option.map_some, Option.getD_some] using hwords

theorem called_circuit {w : List Token} {t : Tree} {c : CircuitDesk.Circuit} (h : Circuit w t)
    (hc : t.toCircuit = .ok c) : c.called = (callsAmong t.parts).map Tree.calledName := by
  obtain ⟨-, hinputs, -, -, -, houtputs⟩ := h
  rename_i nl i inputs ls gates nl' o outputs
  simp only [Tree.toCircuit, List.cons_append, List.getLast?_concat, List.dropLast_concat] at hc
  obtain ⟨_, -, hc⟩ := Tree.bind_eq_ok.mp hc
  obtain ⟨_, -, hc⟩ := Tree.bind_eq_ok.mp hc
  obtain ⟨gs, hgs, hc⟩ := Tree.bind_eq_ok.mp hc
  cases hc
  rw [Tree.parts, callsAmong_statements hinputs houtputs]
  exact Tree.called_of_gates hgs

theorem called_subroutine {w : List Token} {t : Tree} {s : CircuitDesk.Subroutine} (h : Subroutine w t)
    (hs : t.toSubroutine = .ok s) : s.circuit.called = (callsAmong t.bodyParts).map Tree.calledName := by
  obtain ⟨-, -, -, -, -, -, -, -, -, -, hbody⟩ := h
  obtain ⟨c, hc, hs⟩ := Tree.bind_eq_ok.mp hs
  cases hs
  exact called_circuit hbody hc

theorem called_program {w : List Token} {t : Tree} {p : CircuitDesk.Program} (h : Program w t)
    (hp : t.toProgram = .ok p) : p.walk.map (fun c => c.2.2) = t.callNodes.map Tree.calledName := by
  obtain ⟨hmain, hsubs⟩ := h
  rename_i c main ls subs
  obtain ⟨mainCircuit, hreadMain, hp⟩ := Tree.bind_eq_ok.mp hp
  obtain ⟨ss, hreadSubs, hp⟩ := Tree.bind_eq_ok.mp hp
  cases hp
  obtain ⟨hmap, -⟩ := Tree.toSubroutines_eq_ok.mp hreadSubs
  have hbodies : (ss.flatMap fun s => s.circuit.called) =
      (subs.flatMap fun s => callsAmong s.bodyParts).map Tree.calledName := by
    rw [List.map_flatMap]
    refine Tree.flatMap_of_mapM hmap fun s hs sub hsub => ?_
    obtain ⟨v, hv, -⟩ := lines_mem hsubs s hs
    exact called_subroutine hv hsub
  rw [Program.walk_names, Tree.callNodes, List.map_append, ← called_circuit hmain hreadMain, ← hbodies]
  rfl

end Grammar

end CircuitDesk
