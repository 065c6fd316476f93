import CircuitDesk.Proofs.Spelling

namespace CircuitDesk

open Bytes (Quotable StopsAt)
open Token (Apart Tile apart_cons cut_append fits_blank fits_fixed fits_integer fits_keyword fits_string isBlank)
open Token.Tile

theorem fits_ofWire {w : Wire} (hw : 0 ≤ w) {rest : Bytes} (hrest : Apart rest) : Fits (ofWire w) rest := by
  rw [ofWire, integer, Bytes.ofInt64_of_nonneg hw]
  exact fits_integer (.intro (.inl rfl) (Bytes.ofNat_ne_nil _) (Bytes.allDigits_ofNat _)) hrest.numberEnds

theorem ofWire_stops {w : Wire} (hw : 0 ≤ w) (rest : Bytes) : StopsAt isBlank ((ofWire w).text ++ rest) := by
  rw [ofWire, integer, Bytes.ofInt64_of_nonneg hw]
  obtain ⟨d, ds, hds⟩ := List.exists_cons_of_ne_nil (Bytes.ofNat_ne_nil w.toInt.toNat)
  have hd := Bytes.allDigits_ofNat w.toInt.toNat d (by rw [hds]; exact List.mem_cons_self)
  rw [hds]
  exact Bytes.stopsAt_cons _ (Token.isDigit_not_blank hd).1

theorem fits_ref {r : ControlRef} (hr : 0 ≤ r.wire) {rest : Bytes} (hrest : Apart rest) :
    Fits (integer r.text) rest := by
  rw [integer, ControlRef.text, Bytes.ofInt64_of_nonneg hr]
  have hsign : Token.IsSign [45, 43] [if r.positive then 43 else 45] := .inr ⟨_, by cases r.positive <;> simp, rfl⟩
  exact fits_integer (.intro hsign (Bytes.ofNat_ne_nil _) (Bytes.allDigits_ofNat _)) hrest.numberEnds

theorem fits_comma (rest : Bytes) : Fits (punctuation ",") rest := fits_fixed (by decide) rest

theorem fits_colon (rest : Bytes) : Fits (punctuation ":") rest := fits_fixed (by decide) rest

theorem fits_star (rest : Bytes) : Fits (punctuation "*") rest := fits_fixed (by decide) rest

theorem fits_leftParen (rest : Bytes) : Fits (punctuation "(") rest := fits_fixed (by decide) rest

theorem fits_rightParen (rest : Bytes) : Fits (punctuation ")") rest := fits_fixed (by decide) rest

theorem fits_leftBracket (rest : Bytes) : Fits (punctuation "[") rest := fits_fixed (by decide) rest

theorem fits_rightBracket (rest : Bytes) : Fits (punctuation "]") rest := fits_fixed (by decide) rest

theorem fits_newline (rest : Bytes) : Fits newline rest := fits_fixed (by decide) rest

theorem fits_with {rest : Bytes} (h : Apart rest) : Fits (keyword "with") rest :=
  fits_keyword (by decide) rfl h.wordEnds

theorem fits_nocontrol {rest : Bytes} (h : Apart rest) : Fits (keyword "nocontrol") rest :=
  fits_keyword (by decide) rfl h.wordEnds

theorem cut_flatMap {α : Type} {f : α → List Tile} {as : List α} (lead : List Tile)
    (hlead : ∀ a ∈ as, ∀ s, Cut lead (flat (f a) ++ s)) (hapart : ∀ s, Apart (flat lead ++ s))
    (h : ∀ a ∈ as, ∀ s, Apart s → Cut (f a) s) {rest : Bytes} (hrest : Apart rest) :
    Cut (as.flatMap fun a => lead ++ f a) rest ∧ Apart (flat (as.flatMap fun a => lead ++ f a) ++ rest) := by
  induction as with
  | nil => exact ⟨trivial, hrest⟩
  | cons a as ih =>
    obtain ⟨hcut, hnext⟩ := ih (fun b hb => hlead b (List.mem_cons_of_mem a hb))
      (fun b hb => h b (List.mem_cons_of_mem a hb))
    rw [List.flatMap_cons, cut_append, cut_append, Token.flat_append, Token.flat_append, List.append_assoc,
      List.append_assoc]
    exact ⟨⟨⟨hlead a List.mem_cons_self _, h a List.mem_cons_self _ hnext⟩, hcut⟩, hapart _⟩

theorem cut_joined {sep : List Tile} {tss : List (List Tile)} {rest : Bytes}
    (hgroup : ∀ ts ∈ tss, ∀ s, Apart s → Cut ts s) (hsep : ∀ ts ∈ tss, ∀ s, Cut sep (flat ts ++ s))
    (hapart : ∀ s, Apart (flat sep ++ s)) (hrest : Apart rest) : Cut (joined sep tss) rest := by
  cases tss with
  | nil => trivial
  | cons ts tss =>
    obtain ⟨hcut, hnext⟩ := cut_flatMap sep (fun us hus => hsep us (List.mem_cons_of_mem ts hus)) hapart
      (fun us hus => hgroup us (List.mem_cons_of_mem ts hus)) hrest
    exact cut_append.mpr ⟨hgroup ts List.mem_cons_self _ hnext, hcut⟩

theorem cut_commas {tss : List (List Tile)} {rest : Bytes} (hgroup : ∀ ts ∈ tss, ∀ s, Apart s → Cut ts s)
    (hrest : Apart rest) : Cut (joined [punctuation ","] tss) rest :=
  cut_joined hgroup (fun _ _ _ => ⟨fits_comma _, trivial⟩) (fun _ => apart_cons _ rfl) hrest

theorem cut_starTiles (inverted : Bool) (rest : Bytes) : Cut (starTiles inverted) rest := by
  cases inverted
  · trivial
  · exact ⟨fits_star _, trivial⟩

theorem cut_controlTiles {c : Control} (hc : c.Representable) {rest : Bytes} (hrest : Apart rest) :
    Cut c.tiles rest := by
  have hrefs : ∀ ts ∈ c.refs.map fun r => [integer r.text], ∀ s, Apart s → Cut ts s := by
    intro ts hts s hs
    obtain ⟨r, hr, rfl⟩ := List.mem_map.mp hts
    exact ⟨fits_ref (hc r hr) hs, trivial⟩
  rw [Control.tiles]
  split
  · rw [List.cons_append]
    refine ⟨fits_fixed (by decide) _, cut_append.mpr ⟨cut_commas hrefs (apart_cons _ rfl), ?_⟩⟩
    refine ⟨fits_rightBracket _, ?_⟩
    split
    · exact ⟨fits_blank (Bytes.stopsAt_cons _ rfl), fits_with (apart_cons _ rfl),
        fits_blank (Bytes.stopsAt_cons _ rfl), fits_nocontrol hrest, trivial⟩
    · trivial
  · exact ⟨fits_nocontrol hrest, trivial⟩

theorem controlTiles_stops (c : Control) (rest : Bytes) : StopsAt isBlank (flat c.tiles ++ rest) := by
  rw [Control.tiles]
  split
  · exact Bytes.stopsAt_cons _ rfl
  · exact Bytes.stopsAt_cons _ rfl

theorem cut_wiresTiles {ws : List Wire} (hws : ∀ w ∈ ws, 0 ≤ w) (rest : Bytes) : Cut (wiresTiles ws) rest := by
  have hwires : ∀ ts ∈ ws.map fun w => [ofWire w], ∀ s, Apart s → Cut ts s := by
    intro ts hts s hs
    obtain ⟨w, hw, rfl⟩ := List.mem_map.mp hts
    exact ⟨fits_ofWire (hws w hw) hs, trivial⟩
  rw [wiresTiles, List.cons_append]
  refine ⟨fits_leftParen _, cut_append.mpr ⟨cut_commas hwires (apart_cons _ rfl), ?_⟩⟩
  exact ⟨fits_rightParen _, trivial⟩

theorem cut_callTiles {c : Call} (hc : c.Representable) {rest : Bytes} (hrest : Apart rest) :
    Cut c.tiles rest := by
  have hpositive : 0 ≤ c.repetitions :=
    Int64.le_trans (by decide) hc.repetitions_pos
  have hcontrol : Cut c.controlTiles rest := by
    rw [Call.controlTiles]
    split
    · exact ⟨fits_blank (Bytes.stopsAt_cons _ rfl), fits_with (apart_cons _ rfl),
        fits_blank (controlTiles_stops _ _), cut_controlTiles hc.control hrest⟩
    · trivial
  -- the word is no header: a bracket or a parenthesis follows it
  have hword : ∀ s, Fits (keyword "Subroutine") (flat (c.repetitionTiles ++ punctuation "[" :: s) ++ rest) := by
    intro s
    rw [Call.repetitionTiles]
    split
    · exact fits_keyword (by decide) rfl rfl
    · exact fits_keyword (by decide) rfl rfl
  have hrepetition : ∀ s, Cut c.repetitionTiles s := by
    intro s
    rw [Call.repetitionTiles]
    split
    · trivial
    · refine ⟨fits_leftParen _, ?_, fits_rightParen _, trivial⟩
      rw [Bytes.ofInt64_of_nonneg hpositive]
      exact Token.fits_repetition (Bytes.ofNat_ne_nil _) (Bytes.allDigits_ofNat _) rfl
  simp only [Call.tiles, List.cons_append, List.append_assoc]
  refine ⟨hword _, cut_append.mpr ⟨hrepetition _, ?_⟩⟩
  refine ⟨fits_leftBracket _, fits_string hc.name_quotable _, fits_comma _,
    fits_blank (Bytes.stopsAt_cons _ rfl), fits_keyword (by decide) rfl rfl,
    fits_blank (Bytes.stopsAt_cons _ rfl), fits_string hc.shape_quotable _, fits_rightBracket _, ?_⟩
  refine cut_append.mpr ⟨cut_starTiles _ _, fits_blank (Bytes.stopsAt_cons _ rfl), ?_⟩
  refine cut_append.mpr ⟨cut_wiresTiles hc.inputs_nonneg _, ?_⟩
  refine ⟨fits_blank (Bytes.stopsAt_cons _ rfl), fits_fixed (by decide) _,
    fits_blank (Bytes.stopsAt_cons _ rfl), ?_⟩
  exact cut_append.mpr ⟨cut_wiresTiles hc.outputs_nonneg _, hcontrol⟩

theorem gateOp_name_quotable {op : GateOp} (h : op.isKnown) : Quotable op.name := by
  cases op with
  | unknown n => cases h
  | _ => decide

theorem rotationOp_name_quotable {op : RotationOp} (h : op.isKnown) : Quotable op.name := by
  cases op with
  | unknown n => cases h
  | _ => decide

theorem cut_labels {labels : List WireLabel} (h : ∀ l ∈ labels, 0 ≤ l.wire ∧ Quotable l.label) {rest : Bytes}
    (hrest : Apart rest) : Cut (joined [punctuation ",", blank] (labels.map WireLabel.tiles)) rest := by
  refine cut_joined ?_ ?_ (fun _ => apart_cons _ rfl) hrest
  · intro ts hts s hs
    obtain ⟨l, hl, rfl⟩ := List.mem_map.mp hts
    exact ⟨fits_ofWire (h l hl).1 (apart_cons _ rfl), fits_colon _, fits_string (h l hl).2 _, trivial⟩
  · intro ts hts s
    obtain ⟨l, hl, rfl⟩ := List.mem_map.mp hts
    refine ⟨fits_comma _, fits_blank ?_, trivial⟩
    rw [Token.flat_nil, List.nil_append, WireLabel.tiles, Token.flat_cons, List.append_assoc]
    exact ofWire_stops (h l hl).1 _

theorem cut_gateTiles {g : Gate} (hg : g.Representable) {rest : Bytes} (hrest : Apart rest) :
    Cut g.tiles rest := by
  cases g with
  | named op inverted w control =>
    obtain ⟨hop, hw, hcontrol, -⟩ := hg
    refine ⟨fits_fixed (by decide) _, fits_string (gateOp_name_quotable hop) _, fits_rightBracket _, ?_⟩
    refine cut_append.mpr ⟨cut_starTiles _ _, fits_leftParen _, fits_ofWire hw (apart_cons _ rfl),
      fits_rightParen _, fits_blank (Bytes.stopsAt_cons _ rfl), fits_with (apart_cons _ rfl),
      fits_blank (controlTiles_stops _ _), cut_controlTiles hcontrol hrest⟩
  | rotation op inverted step w =>
    obtain ⟨hop, hstep, hw⟩ := hg
    refine ⟨fits_fixed (by decide) _, fits_string (rotationOp_name_quotable hop) _, fits_comma _,
      Token.fits_timestep hstep rfl, fits_rightBracket _, ?_⟩
    exact cut_append.mpr ⟨cut_starTiles _ _, fits_leftParen _, fits_ofWire hw (apart_cons _ rfl),
      fits_rightParen _, trivial⟩
  | init value w label =>
    obtain ⟨hw, hlabel⟩ := hg
    have hword : ∀ s, Fits (keyword (initWord value)) (flat (punctuation "(" :: s) ++ rest) := by
      intro s
      cases value
      · exact fits_keyword (by decide) rfl rfl
      · exact fits_keyword (by decide) rfl rfl
    have htail : Cut [punctuation ")", blank, keyword "with", blank, keyword "nocontrol"] rest :=
      ⟨fits_rightParen _, fits_blank (Bytes.stopsAt_cons _ rfl), fits_with (apart_cons _ rfl),
        fits_blank (Bytes.stopsAt_cons _ rfl), fits_nocontrol hrest, trivial⟩
    simp only [Gate.tiles, List.cons_append]
    refine ⟨hword _, fits_leftParen _, ?_, cut_append.mpr ⟨?_, htail⟩⟩
    · rw [initLabelTiles]
      split
      · exact fits_ofWire hw (apart_cons _ rfl)
      · exact fits_ofWire hw (apart_cons _ rfl)
    · rw [initLabelTiles]
      split
      · trivial
      · exact ⟨fits_colon _, fits_string hlabel _, trivial⟩
  | comment text labels =>
    obtain ⟨htext, hlabels⟩ := hg
    refine ⟨fits_fixed (by decide) _, fits_string htext _, fits_rightBracket _, fits_leftParen _, ?_⟩
    exact cut_append.mpr ⟨cut_labels hlabels (apart_cons _ rfl), fits_rightParen _, trivial⟩
  | call c => exact cut_callTiles hg hrest

theorem cut_lineTiles {direction : Direction} {ds : List Declaration} (hds : Declaration.Representable ds)
    {rest : Bytes} (hrest : Apart rest) : Cut (Declaration.lineTiles direction ds) rest := by
  have hdeclarations : ∀ ts ∈ ds.map Declaration.tiles, ∀ s, Apart s → Cut ts s := by
    intro ts hts s hs
    obtain ⟨d, hd, rfl⟩ := List.mem_map.mp hts
    refine ⟨fits_blank ?_, fits_ofWire (hds.wire_nonneg d hd) (apart_cons _ rfl), fits_colon _, ?_,
      trivial⟩
    · rw [Token.flat_cons, List.append_assoc]
      exact ofWire_stops (hds.wire_nonneg d hd) _
    · rcases hds.type_known d hd with h | h <;> rw [h]
      · exact fits_keyword (by decide) rfl hs.wordEnds
      · exact fits_keyword (by decide) rfl hs.wordEnds
  refine ⟨?_, fits_colon _, cut_commas hdeclarations hrest⟩
  cases direction
  · exact fits_keyword (by decide) rfl rfl
  · exact fits_keyword (by decide) rfl rfl

theorem cut_newline (s : Bytes) : Cut [newline] s := ⟨fits_newline _, trivial⟩

theorem cut_circuitTiles {c : Circuit} (hc : c.Representable) {rest : Bytes} (hrest : Apart rest) :
    Cut c.tiles rest := by
  have houtputs : Apart (flat (newline :: Declaration.lineTiles .outputs c.outputs) ++ rest) := apart_cons _ rfl
  obtain ⟨hgates, hnext⟩ := cut_flatMap (f := Gate.tiles) [newline] (fun _ _ _ => cut_newline _)
    (fun _ => apart_cons _ rfl)
    (fun g hg s hs => cut_gateTiles (hc.gates g hg) hs) houtputs
  rw [Circuit.tiles, List.append_assoc]
  refine cut_append.mpr ⟨?_, cut_append.mpr ⟨hgates, fits_newline _, cut_lineTiles hc.outputs hrest⟩⟩
  rw [Token.flat_append, List.append_assoc]
  exact cut_lineTiles hc.inputs hnext

theorem cut_subroutineTiles {s : Subroutine} (hs : s.Representable) {rest : Bytes} (hrest : Apart rest) :
    Cut s.tiles rest := by
  have hword : ∀ t, Fits (keyword s.controllable.name) (flat (newline :: t) ++ rest) := by
    intro t
    rcases hs.controllable_known with h | h | h <;> rw [h]
    · exact fits_keyword (by decide) rfl rfl
    · exact fits_keyword (by decide) rfl rfl
    · exact fits_keyword (by decide) rfl rfl
  have hblank : StopsAt isBlank (flat (keyword s.controllable.name :: newline :: s.circuit.tiles) ++ rest) := by
    rcases hs.controllable_known with h | h | h <;> rw [h] <;> exact Bytes.stopsAt_cons _ rfl
  exact ⟨fits_fixed (by decide) _, fits_blank (Bytes.stopsAt_cons _ rfl), fits_string hs.name_quotable _,
    fits_newline _, fits_fixed (by decide) _, fits_blank (Bytes.stopsAt_cons _ rfl),
    fits_string hs.shape_quotable _, fits_newline _, fits_fixed (by decide) _, fits_blank hblank, hword _,
    fits_newline _, cut_circuitTiles hs.circuit hrest⟩

theorem cut_programTiles {p : Program} (hp : p.Representable) : Cut p.tiles [] := by
  have hnewlines : ∀ s, Cut [newline, newline] s :=
    fun s => ⟨fits_newline _, fits_newline _, trivial⟩
  have hend : Apart (flat [newline] ++ []) := apart_cons _ rfl
  obtain ⟨hsubs, hnext⟩ := cut_flatMap (f := Subroutine.tiles) [newline, newline] (fun _ _ _ => hnewlines _)
    (fun _ => apart_cons _ rfl) (fun s hs t ht => cut_subroutineTiles (hp.subroutines s hs) ht) hend
  rw [Program.tiles, List.append_assoc]
  refine cut_append.mpr ⟨?_, cut_append.mpr ⟨hsubs, cut_newline _⟩⟩
  rw [Token.flat_append, List.append_assoc]
  exact cut_circuitTiles hp.main hnext

theorem tiles_programText {p : Program} (hp : p.Representable) : Token.tiles p.text = (p.tiles, []) := by
  have h := Token.tiles_of_cut (cut_programTiles hp)
  rw [List.append_nil, flat_programTiles] at h
  rw [h]
  simp [Token.tiles]

end CircuitDesk
