import CircuitDesk.Proofs.Grammar
import CircuitDesk.Proofs.Spelling
import CircuitDesk.Proofs.Values

namespace CircuitDesk

open Bytes (Quotable)
open Token (Kind Tile place)
open Token.Tile
open CircuitDesk.Tree (bind_eq_ok labelOf mapM_cons_eq_ok mapM_nil_eq_ok toControl unquoted wireNumber)
open CircuitDesk.Tree.Reading hiding bind_eq_ok

/-- Wherever the tiles are placed, their tokens are a word of `L` that is read as `b`. -/
def Spells {α β : Type} (L : Phrase α) (read : α → Checked β) (ts : List Tile) (b : β) : Prop :=
  ∀ p, ∃ a, L (place p ts).1 a ∧ read a = .ok b

theorem Spells.choose {α β : Type} {L : Phrase α} {read : α → Checked β} {ts : List Tile} {b : β}
    (h : Spells L read ts b) : ∃ a : Position → α, (∀ p, L (place p ts).1 (a p)) ∧ ∀ p, read (a p) = .ok b := by
  obtain ⟨a, ha⟩ := Classical.axiomOfChoice h
  exact ⟨a, fun p => (ha p).1, fun p => (ha p).2⟩

theorem place_nil (p : Position) : (place p []).1 = [] := rfl

theorem place_cons (p : Position) (k : Kind) (s : Bytes) (ts : List Tile) :
    (place p (⟨some k, s⟩ :: ts)).1 = ⟨k, s, p⟩ :: (place (p.advance s) ts).1 := rfl

theorem place_blank (p : Position) (ts : List Tile) :
    (place p (blank :: ts)).1 = (place (p.advance blank.text) ts).1 := rfl

theorem place_append (p : Position) (ts us : List Tile) :
    (place p (ts ++ us)).1 = (place p ts).1 ++ (place (place p ts).2 us).1 := by
  induction ts generalizing p with
  | nil => rfl
  | cons t ts ih =>
    obtain ⟨kind, s⟩ := t
    cases kind with
    | none => exact ih (p.advance s)
    | some k =>
      rw [List.cons_append, place_cons, place_cons, List.cons_append, ih]
      rfl

theorem unquoted_quoteText (s : Bytes) (p : Position) : unquoted ⟨.string, quoteText s, p⟩ = s := by
  simp [unquoted, quoteText]

theorem wireNumber_ofInt64 {w : Wire} (hw : 0 ≤ w) (p : Position) :
    wireNumber ⟨.integer, Bytes.ofInt64 w, p⟩ = .ok w := by
  have hnumber := Bytes.number?_ofInt64 hw
  rw [wireNumber]
  simp only [hnumber]
  rw [Bytes.ofInt64_of_nonneg hw, if_neg (Bytes.ofNat_head_ne rfl), if_neg (Bytes.ofNat_head_ne rfl)]

theorem controlRef_text {r : ControlRef} (hr : 0 ≤ r.wire) (p : Position) :
    Tree.controlRef ⟨.integer, r.text, p⟩ = .ok r := by
  have hnumber := Bytes.number?_ofInt64 hr
  obtain ⟨w, positive⟩ := r
  cases positive <;> simp [Tree.controlRef, ControlRef.text, hnumber]

theorem spells_ofWire {w : Wire} (hw : 0 ≤ w) : Spells Grammar.Integer wireNumber [ofWire w] w :=
  fun p => ⟨_, ⟨rfl, rfl⟩, wireNumber_ofInt64 hw p⟩

theorem spells_ref {r : ControlRef} (hr : 0 ≤ r.wire) :
    Spells Grammar.Integer Tree.controlRef [integer r.text] r :=
  fun p => ⟨_, ⟨rfl, rfl⟩, controlRef_text hr p⟩

section Lists

variable {α β : Type} {L : Phrase α} {read : α → Checked β} {f : β → List Tile}

theorem joined_cons_cons (sep ts us : List Tile) (tss : List (List Tile)) :
    joined sep (ts :: us :: tss) = ts ++ (sep ++ joined sep (us :: tss)) := by
  simp [joined]

theorem spells_separated {sep : List Tile} (hsep : ∀ p, ∃ t, (place p sep).1 = [t] ∧ isComma t) {bs : List β}
    (hne : bs ≠ []) (h : ∀ b ∈ bs, Spells L read (f b) b) :
    Spells (Separated L) (fun as => as.mapM read) (joined sep (bs.map f)) bs := by
  cases bs with
  | nil => exact absurd rfl hne
  | cons b bs =>
    clear hne
    induction bs generalizing b with
    | nil =>
      intro p
      obtain ⟨a, ha, hread⟩ := h b List.mem_cons_self p
      refine ⟨[a], ?_, mapM_cons_eq_ok.mpr ⟨b, [], hread, rfl, rfl⟩⟩
      simpa [joined] using Separated.one ha
    | cons c bs ih =>
      intro p
      obtain ⟨a, ha, hread⟩ := h b List.mem_cons_self p
      obtain ⟨comma, hplace, hcomma⟩ := hsep (place p (f b)).2
      obtain ⟨as, has, hreads⟩ := ih c (fun d hd => h d (List.mem_cons_of_mem b hd))
        (place (place p (f b)).2 sep).2
      refine ⟨a :: as, ?_, mapM_cons_eq_ok.mpr ⟨b, c :: bs, hread, hreads, rfl⟩⟩
      rw [List.map_cons, List.map_cons, joined_cons_cons, place_append, place_append, hplace]
      exact .cons ha hcomma has

theorem comma_place (p : Position) : ∃ t, (place p [punctuation ","]).1 = [t] ∧ isComma t := ⟨_, rfl, rfl⟩

theorem commaBlank_place (p : Position) : ∃ t, (place p [punctuation ",", blank]).1 = [t] ∧ isComma t :=
  ⟨_, rfl, rfl⟩

theorem spells_lines {nl : List Tile} (hnl : ∀ p, Newlines (place p nl).1 ∧ (place p nl).1 ≠ []) {bs : List β}
    (h : ∀ b ∈ bs, Spells L read (f b) b) :
    Spells (Lines L) (fun as => as.mapM read) (bs.flatMap fun b => nl ++ f b) bs := by
  induction bs with
  | nil => exact fun p => ⟨[], .nil, rfl⟩
  | cons b bs ih =>
    intro p
    obtain ⟨a, ha, hread⟩ := h b List.mem_cons_self (place p nl).2
    obtain ⟨as, has, hreads⟩ := ih (fun c hc => h c (List.mem_cons_of_mem b hc)) (place p (nl ++ f b)).2
    refine ⟨a :: as, ?_, mapM_cons_eq_ok.mpr ⟨b, bs, hread, hreads, rfl⟩⟩
    rw [List.flatMap_cons, place_append, place_append p nl]
    exact .cons (hnl p).1 (hnl p).2 ha has

end Lists

theorem spells_integers {β : Type} {read : Token → Checked β} {f : β → List Tile} {bs : List β}
    (h : ∀ b ∈ bs, Spells Grammar.Integer read (f b) b) :
    Spells Grammar.Integers (fun as => as.mapM read) (joined [punctuation ","] (bs.map f)) bs := by
  by_cases hne : bs = []
  · subst hne
    exact fun p => ⟨[], .none, rfl⟩
  · intro p
    obtain ⟨as, has, hread⟩ := spells_separated comma_place hne h p
    exact ⟨as, .some has, hread⟩

theorem spells_wiresTiles {ws : List Wire} (hws : ∀ w ∈ ws, 0 ≤ w) :
    Spells Grammar.WiresInParens Tree.toWireList (wiresTiles ws) ws := by
  intro p
  obtain ⟨as, has, hread⟩ := spells_integers (f := fun w => [ofWire w]) (fun w hw => spells_ofWire (hws w hw))
    (p.advance (Bytes.ofString "("))
  refine ⟨.node .intList none (as.map .leaf), ?_, ?_⟩
  · rw [wiresTiles, List.cons_append, punctuation, place_cons, place_append]
    exact .intro rfl (.intro has) rfl
  · rw [Tree.toWireList, List.mapM_map]
    exact hread

theorem spells_control {c : Control} (hc : c.Representable) (hsome : c.refs ≠ [] ∨ c.noControl) :
    Spells Grammar.ControlApp toControl c.tiles c := by
  intro p
  by_cases hrefs : c.refs = []
  · have htiles : c.tiles = [keyword "nocontrol"] := by simp [Control.tiles, Control.isControlled, hrefs]
    rw [htiles]
    refine ⟨.node .controlApp none [.leaf ⟨.keyword, "nocontrol", p⟩], .none rfl, ?_⟩
    obtain ⟨refs, noControl⟩ := c
    cases hrefs
    have hno : noControl = true := hsome.resolve_left fun h => h rfl
    rw [hno]
    rfl
  · obtain ⟨as, has, hread⟩ := spells_integers (f := fun r : ControlRef => [integer r.text])
      (fun r hr => spells_ref (hc r hr)) (p.advance (Bytes.ofString "controls=["))
    have hcontrolled : c.isControlled := by simp [Control.isControlled, hrefs]
    have hparts : (as.map Tree.leaf).isEmpty = false := by
      have hlength := Tree.length_of_mapM hread
      cases as with
      | nil => exact absurd (List.length_eq_zero_iff.mp hlength) hrefs
      | cons a as => rfl
    have hleaves : (as.map Tree.leaf).mapM Tree.leafControlRef = .ok c.refs := by
      rw [List.mapM_map]
      exact hread
    have hvalue (more : List Tree) (opening : Token) (hmore : more.isEmpty = !c.noControl) :
        toControl (.node .controlApp none (.node .signedList (some opening) (as.map .leaf) :: more)) = .ok c := by
      rw [toControl, hparts, if_neg Bool.false_ne_true, hleaves, hmore, Bool.not_not]
      rfl
    rw [Control.tiles, if_pos hcontrolled, List.cons_append, opener, place_cons, place_append]
    cases hno : c.noControl with
    | false => exact ⟨_, .list rfl has rfl, hvalue [] _ (by simp [hno])⟩
    | true => exact ⟨_, .listOnly rfl has rfl rfl rfl, hvalue [.leaf _] _ (by simp [hno])⟩

theorem spells_callControl {c : Call} (hc : c.control.Representable) :
    Spells Grammar.CallControl toControl c.controlTiles c.control := by
  intro p
  rw [Call.controlTiles]
  split
  · rename_i hsome
    have hcontrol : c.control.refs ≠ [] ∨ c.control.noControl := by
      simpa [Control.isControlled] using hsome
    obtain ⟨t, ht, hread⟩ := spells_control hc hcontrol
      (((p.advance blank.text).advance (keyword "with").text).advance blank.text)
    exact ⟨t, .present rfl ht, hread⟩
  · rename_i hnone
    refine ⟨_, .absent, ?_⟩
    cases hcontrol : c.control with
    | mk refs noControl =>
      rw [hcontrol] at hnone
      simp only [Control.isControlled, Bool.or_eq_true, Bool.not_eq_true', not_or, Bool.not_eq_false,
        List.isEmpty_iff, Bool.not_eq_true] at hnone
      rw [hnone.1, hnone.2]
      rfl

theorem spells_label {l : WireLabel} (hl : 0 ≤ l.wire) : Spells Grammar.LabelledWire labelOf l.tiles l :=
  fun p => ⟨_, .intro rfl rfl rfl, Tree.labelOf_eq_ok.mpr ⟨wireNumber_ofInt64 hl p, unquoted_quoteText _ _⟩⟩

theorem spells_labels {ls : List WireLabel} (hls : ∀ l ∈ ls, 0 ≤ l.wire) :
    Spells Grammar.Labels (fun ps => ps.mapM labelOf)
      (joined [punctuation ",", blank] (ls.map WireLabel.tiles)) ls := by
  by_cases hne : ls = []
  · subst hne
    exact fun p => ⟨[], .none, rfl⟩
  · intro p
    obtain ⟨ps, hps, hread⟩ := spells_separated commaBlank_place hne (fun l hl => spells_label (hls l hl)) p
    exact ⟨ps, .some hps, hread⟩

theorem spells_stars (inverted : Bool) :
    Spells Grammar.Stars (fun ts => .ok (Tree.node .inversion none ts).isInverted) (starTiles inverted)
      inverted := by
  cases inverted
  · exact fun p => ⟨[], .absent, rfl⟩
  · exact fun p => ⟨_, .present rfl, rfl⟩

theorem lookup_gateOp {op : GateOp} (h : op.isKnown) : GateOp.lookup op.name = some op := by
  cases op with
  | unknown n => cases h
  | _ => decide

theorem lookup_rotationOp {op : RotationOp} (h : op.isKnown) : RotationOp.lookup op.name = some op := by
  cases op with
  | unknown n => cases h
  | _ => decide

theorem spells_named {op : GateOp} {inverted : Bool} {w : Wire} {control : Control}
    (h : (Gate.named op inverted w control).Representable) :
    Spells Grammar.QGate Tree.toGate (Gate.named op inverted w control).tiles (.named op inverted w control) := by
  obtain ⟨hop, hw, hcontrol, hsome⟩ := h
  obtain ⟨stars, hstars, hinverted⟩ := (spells_stars inverted).choose
  obtain ⟨c, hc, hread⟩ := (spells_control hcontrol hsome).choose
  intro p
  simp only [Gate.tiles, List.cons_append, opener, string, punctuation, ofWire, integer, keyword, place_cons,
    place_append, place_blank]
  refine ⟨_, .intro rfl rfl rfl (hstars _) rfl rfl rfl rfl (hc _), ?_⟩
  simp only [Tree.toGate, unquoted_quoteText, lookup_gateOp hop, wireNumber_ofInt64 hw, hread,
    Except.ok.inj (hinverted _)]
  rfl

theorem spells_rotation {op : RotationOp} {inverted : Bool} {step : Binary64} {w : Wire}
    (h : (Gate.rotation op inverted step w).Representable) :
    Spells Grammar.QRot Tree.toGate (Gate.rotation op inverted step w).tiles (.rotation op inverted step w) := by
  obtain ⟨hop, hstep, hw⟩ := h
  obtain ⟨stars, hstars, hinverted⟩ := (spells_stars inverted).choose
  intro p
  simp only [Gate.tiles, List.cons_append, opener, string, punctuation, ofWire, integer, place_cons, place_append,
    place_nil]
  refine ⟨_, .intro rfl rfl rfl rfl rfl (hstars _) rfl rfl rfl, ?_⟩
  simp only [Tree.toGate, unquoted_quoteText, lookup_rotationOp hop, Timestep.ofDecimal?_text hstep,
    wireNumber_ofInt64 hw, Except.ok.inj (hinverted _)]
  rfl

theorem spells_init {value : Bool} {w : Wire} {label : Bytes} (hw : 0 ≤ w) :
    Spells Grammar.QInit Tree.toGate (Gate.init value w label).tiles (.init value w label) := by
  have hword (p : Position) : (⟨.keyword, initWord value, p⟩ : Token).is .keyword "QInit0" ∨
      (⟨.keyword, initWord value, p⟩ : Token).is .keyword "QInit1" := by
    cases value
    · exact .inl rfl
    · exact .inr rfl
  have hvalue : decide (initWord value = Bytes.ofString "QInit1") = value := by cases value <;> decide
  intro p
  simp only [Gate.tiles, List.cons_append, keyword, punctuation, ofWire, integer, place_cons]
  by_cases hlabel : label = []
  · subst hlabel
    refine ⟨_, .intro (hword p) rfl (.bare rfl) rfl rfl rfl, ?_⟩
    simp only [Tree.toGate, wireNumber_ofInt64 hw, hvalue]
    rfl
  · simp only [initLabelTiles, if_neg hlabel, punctuation, string, List.cons_append, List.nil_append, place_cons]
    refine ⟨_, .intro (hword p) rfl (.labelled rfl rfl rfl) rfl rfl rfl, ?_⟩
    simp only [Tree.toGate, Tree.toWireLabel, wireNumber_ofInt64 hw, unquoted_quoteText, hvalue]
    rfl

theorem spells_comment {text : Bytes} {labels : List WireLabel} (h : ∀ l ∈ labels, 0 ≤ l.wire) :
    Spells Grammar.Comment Tree.toGate (Gate.comment text labels).tiles (.comment text labels) := by
  obtain ⟨ps, hps, hread⟩ := (spells_labels h).choose
  intro p
  simp only [Gate.tiles, List.cons_append, opener, string, punctuation, place_cons, place_append, place_nil]
  refine ⟨_, .intro rfl rfl rfl rfl (hps _) rfl, ?_⟩
  simp only [Tree.toGate, unquoted_quoteText, Tree.toWireLabels_flat, hread]
  rfl

theorem spells_repetition {c : Call} (hc : 1 ≤ c.repetitions) :
    Spells Grammar.Repetition (fun ts => Tree.toRepetitions (.node .repetition none ts)) c.repetitionTiles
      c.repetitions := by
  intro p
  rw [Call.repetitionTiles]
  split
  · rename_i hone
    exact ⟨[], .absent, by rw [hone]; rfl⟩
  · have hnumber := Bytes.number?_ofInt64 (Int64.le_trans (by decide) hc)
    refine ⟨_, .present rfl rfl rfl, ?_⟩
    simp only [Tree.toRepetitions, List.drop_one, List.tail_cons, hnumber]
    rw [if_neg (Int64.not_lt.mpr hc)]

theorem call_intro {opening left name comma shapeWord shape right arrow : Token}
    {r s i o c : List Token} {count stars : List Tree} {inputs outputs control : Tree}
    (hopening : opening.is .keyword "Subroutine") (hr : Grammar.Repetition r count)
    (hleft : left.is .punctuation "[") (hname : name.kind = .string) (hcomma : comma.is .punctuation ",")
    (hword : shapeWord.is .keyword "shape") (hshape : shape.kind = .string) (hright : right.is .punctuation "]")
    (hs : Grammar.Stars s stars) (hi : Grammar.WiresInParens i inputs) (harrow : arrow.kind = .arrow)
    (ho : Grammar.WiresInParens o outputs) (hc : Grammar.CallControl c control) :
    Grammar.SubroutineCall
      (opening :: (r ++ left :: name :: comma :: shapeWord :: shape :: right :: (s ++ (i ++ arrow :: (o ++ c)))))
      (.node .subroutineCall (some opening)
        [.node .repetition none count, .leaf name, .leaf shape, .node .inversion none stars, inputs, outputs,
          control]) := by
  have h := Grammar.SubroutineCall.intro hopening hr .absent hleft hname hcomma hword hshape hright hs hi harrow ho hc
  simpa only [List.append_assoc, List.cons_append, List.nil_append, List.append_nil] using h

theorem spells_call {c : Call} (hc : c.Representable) :
    Spells Grammar.SubroutineCall Tree.toGate c.tiles (.call c) := by
  obtain ⟨count, hcount, hrepetitions⟩ := (spells_repetition hc.repetitions_pos).choose
  obtain ⟨stars, hstars, hinverted⟩ := (spells_stars c.inverted).choose
  obtain ⟨inputs, hinputs, hin⟩ := (spells_wiresTiles hc.inputs_nonneg).choose
  obtain ⟨outputs, houtputs, hout⟩ := (spells_wiresTiles hc.outputs_nonneg).choose
  obtain ⟨control, hcontrol, hread⟩ := (spells_callControl hc.control).choose
  intro p
  simp only [Call.tiles, List.cons_append, List.append_assoc, string, punctuation, keyword, arrow, place_cons,
    place_append, place_blank]
  refine ⟨_, call_intro rfl (hcount _) rfl rfl rfl rfl rfl rfl (hstars _) (hinputs _) rfl (houtputs _)
    (hcontrol _), ?_⟩
  simp only [Tree.toGate, unquoted_quoteText, hrepetitions, hin, hout, hread, Except.ok.inj (hinverted _)]
  rfl

theorem spells_gate {g : Gate} (hg : g.Representable) : Spells Grammar.Gate Tree.toGate g.tiles g := by
  intro p
  cases g with
  | named op inverted w control =>
    obtain ⟨t, ht, hread⟩ := spells_named hg p
    exact ⟨t, .qgate ht, hread⟩
  | rotation op inverted step w =>
    obtain ⟨t, ht, hread⟩ := spells_rotation hg p
    exact ⟨t, .qrot ht, hread⟩
  | init value w label =>
    obtain ⟨t, ht, hread⟩ := spells_init hg.1 p
    exact ⟨t, .qinit ht, hread⟩
  | comment text labels =>
    obtain ⟨t, ht, hread⟩ := spells_comment (fun l hl => (hg.2 l hl).1) p
    exact ⟨t, .comment ht, hread⟩
  | call c =>
    obtain ⟨t, ht, hread⟩ := spells_call hg p
    exact ⟨t, .call ht, hread⟩

theorem spells_declaration {d : Declaration} (hw : 0 ≤ d.wire) (htype : d.type = .qbit ∨ d.type = .cbit) :
    Spells Grammar.TypeAssignment Tree.toDeclaration d.tiles d := by
  obtain ⟨w, type⟩ := d
  intro p
  rcases htype with h | h <;> cases h
  · exact ⟨_, .intro rfl rfl (.inl rfl), bind_eq_ok.mpr ⟨w, wireNumber_ofInt64 hw _, rfl⟩⟩
  · exact ⟨_, .intro rfl rfl (.inr rfl), bind_eq_ok.mpr ⟨w, wireNumber_ofInt64 hw _, rfl⟩⟩

theorem spells_line (direction : Direction) {ds : List Declaration} (hds : Declaration.Representable ds) :
    Spells (Grammar.Declarations direction.name) Tree.toIoStatement (Declaration.lineTiles direction ds)
      (direction, ds) := by
  intro p
  obtain ⟨items, hitems, hread⟩ := spells_separated comma_place hds.nonempty
    (fun d hd => spells_declaration (hds.wire_nonneg d hd) (hds.type_known d hd))
    ((p.advance direction.name).advance (Bytes.ofString ":"))
  have hdistinct (list : Bytes) : Tree.toDeclarations list [] items = .ok ds :=
    Tree.toDeclarations_eq_ok.mpr ⟨hread, Tree.fresh_unseen.mpr hds.distinct⟩
  refine ⟨.node .ioStatement none [.leaf ⟨.keyword, direction.name, p⟩, .node .arity none items], ?_, ?_⟩
  · have hword : (⟨.keyword, direction.name, p⟩ : Token).is .keyword direction.name := by simp [Token.is]
    exact .intro hword rfl (.intro hitems)
  · cases direction
    · exact bind_eq_ok.mpr ⟨ds, hdistinct _, rfl⟩
    · exact bind_eq_ok.mpr ⟨ds, hdistinct _, rfl⟩

theorem newline_place (p : Position) :
    Newlines (place p [newline]).1 ∧ (place p [newline]).1 ≠ [] := by
  refine ⟨fun t ht => ?_, List.cons_ne_nil _ _⟩
  rw [List.mem_singleton.mp ht]
  rfl

theorem newlines_singleton {t : Token} (h : isNewline t) : Newlines [t] := by
  intro u hu
  rw [List.mem_singleton.mp hu]
  exact h

theorem circuit_intro {i ls o : List Token} {t : Token} {inputs outputs : Tree} {gates : List Tree}
    (hi : Grammar.Declarations "Inputs" i inputs) (hls : Lines Grammar.Gate ls gates) (ht : isNewline t)
    (ho : Grammar.Declarations "Outputs" o outputs) :
    Grammar.Circuit (i ++ (ls ++ t :: o)) (.node .circuit none (inputs :: (gates ++ [outputs]))) := by
  have h := Grammar.Circuit.intro newlines_nil hi hls (newlines_singleton ht) (List.cons_ne_nil t []) ho
  simpa only [List.nil_append, List.append_assoc, List.cons_append] using h

theorem spells_circuit {c : Circuit} (hc : c.Representable) :
    Spells Grammar.Circuit Tree.toCircuit c.tiles c := by
  obtain ⟨inputs, hinputs, hin⟩ := (spells_line .inputs hc.inputs).choose
  obtain ⟨outputs, houtputs, hout⟩ := (spells_line .outputs hc.outputs).choose
  obtain ⟨gates, hgates, hread⟩ := (spells_lines newline_place fun g hg => spells_gate (hc.gates g hg)).choose
  intro p
  simp only [Circuit.tiles, List.append_assoc, place_append, newline, place_cons]
  refine ⟨_, circuit_intro (hinputs _) (hgates _) rfl (houtputs _), ?_⟩
  simp only [Tree.toCircuit, List.getLast?_concat, List.dropLast_concat]
  exact bind_eq_ok.mpr ⟨_, hin _, bind_eq_ok.mpr ⟨_, hout _, bind_eq_ok.mpr ⟨_, hread _, rfl⟩⟩⟩

theorem subroutine_intro {opening name t shapeWord shape t' controlWord controllable t'' : Token} {b : List Token}
    {body : Tree} (hopening : opening.is .header "Subroutine:") (hname : name.kind = .string) (ht : isNewline t)
    (hword : shapeWord.is .header "Shape:") (hshape : shape.kind = .string) (ht' : isNewline t')
    (hcontrol : controlWord.is .header "Controllable:")
    (hcontrollable : controllable.is .keyword "yes" ∨ controllable.is .keyword "no" ∨
      controllable.is .keyword "classically") (ht'' : isNewline t'') (hb : Grammar.Circuit b body) :
    Grammar.Subroutine
      (opening :: name :: t :: shapeWord :: shape :: t' :: controlWord :: controllable :: t'' :: b)
      (.node .subroutine (some opening) [.leaf name, .leaf shape, .leaf controllable, body]) := by
  have h := Grammar.Subroutine.intro hopening hname (newlines_singleton ht) hword hshape (newlines_singleton ht')
    hcontrol hcontrollable (newlines_singleton ht'') (List.cons_ne_nil t'' []) hb
  simpa only [List.append_assoc, List.cons_append, List.nil_append] using h

theorem spells_subroutine {s : Subroutine} (hs : s.Representable) :
    Spells Grammar.Subroutine Tree.toSubroutine s.tiles s := by
  obtain ⟨body, hbody, hread⟩ := (spells_circuit hs.circuit).choose
  obtain ⟨name, shape, controllable, circuit⟩ := s
  intro p
  have hword (p : Position) : (⟨.keyword, controllable.name, p⟩ : Token).is .keyword "yes" ∨
      (⟨.keyword, controllable.name, p⟩ : Token).is .keyword "no" ∨
      (⟨.keyword, controllable.name, p⟩ : Token).is .keyword "classically" := by
    rcases hs.controllable_known with h | h | h <;> cases h
    · exact .inl rfl
    · exact .inr (.inl rfl)
    · exact .inr (.inr rfl)
  simp only [Subroutine.tiles, header, string, newline, keyword, place_cons, place_blank]
  refine ⟨_, subroutine_intro rfl rfl rfl rfl rfl rfl rfl (hword _) rfl (hbody _), ?_⟩
  refine bind_eq_ok.mpr ⟨circuit, hread _, ?_⟩
  simp only [unquoted_quoteText]
  rcases hs.controllable_known with h | h | h <;> cases h <;> rfl

theorem newlines_place (p : Position) :
    Newlines (place p [newline, newline]).1 ∧ (place p [newline, newline]).1 ≠ [] :=
  ⟨(newline_place p).1.append (newline_place _).1, List.cons_ne_nil _ _⟩

theorem spells_program {p : Program} (hp : p.Representable) (q : Position) :
    ∃ w nl t, (place q p.tiles).1 = w ++ nl ∧ Newlines nl ∧ Grammar.Program w t ∧
      t.toProgram = .ok (.indexed p.main p.subroutines) := by
  obtain ⟨main, hmain, hread⟩ := (spells_circuit hp.main).choose
  obtain ⟨subs, hsubs, hreads⟩ :=
    (spells_lines newlines_place fun s hs => spells_subroutine (hp.subroutines s hs)).choose
  have hdistinct (ts : List Tree) (h : ts.mapM Tree.toSubroutine = .ok p.subroutines) :
      Tree.toSubroutines [] ts = .ok p.subroutines :=
    Tree.toSubroutines_eq_ok.mpr ⟨h, Tree.fresh_unseen.mpr hp.names_distinct⟩
  rw [Program.tiles, place_append, place_append]
  refine ⟨_, _, _, rfl, (newline_place _).1, .intro (hmain _) (hsubs _), ?_⟩
  exact bind_eq_ok.mpr ⟨_, hread _, bind_eq_ok.mpr ⟨_, hdistinct _ (hreads _), rfl⟩⟩

end CircuitDesk
