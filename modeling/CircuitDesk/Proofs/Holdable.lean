import CircuitDesk.Editor
import CircuitDesk.Proofs.Characters
import CircuitDesk.Proofs.RoundTrip
import CircuitDesk.Proofs.Tiling

namespace CircuitDesk

open Bytes (AllDigits Glyph Visible quote)
open CircuitDesk.Tree (unquoted)

namespace Editor

def keeps : Glyph → Bool
  | .char c => cleanChar c = [c]
  | .stray _ => false

def Holdable (t : Bytes) : Prop := ∀ g ∈ Bytes.glyphs t, keeps g

instance (t : Bytes) : Decidable (Holdable t) :=
  decidable_of_iff ((Bytes.glyphs t).all keeps) List.all_eq_true

def isPlain (b : UInt8) : Bool := b = Bytes.newline || (32 ≤ b && b < 127)

def Plain (t : Bytes) : Prop := ∀ b ∈ t, isPlain b

instance (t : Bytes) : Decidable (Plain t) := decidable_of_iff (t.all isPlain) List.all_eq_true

theorem Holdable.chars {t : Bytes} (h : Holdable t) : ∀ g ∈ Bytes.glyphs t, ∃ c, g = .char c := by
  intro g hg
  cases g with
  | char c => exact ⟨c, rfl⟩
  | stray b => exact absurd (h _ hg) (by simp [keeps])

theorem holdable_nil : Holdable [] := fun g hg => by simp [Bytes.glyphs] at hg

theorem Holdable.append {a b : Bytes} (ha : Holdable a) (hb : Holdable b) : Holdable (a ++ b) := by
  rw [Holdable, Bytes.glyphs_append_of_chars ha.chars]
  exact List.forall_mem_append.mpr ⟨ha, hb⟩

theorem Holdable.split {a s : Bytes} {b : UInt8} (h : Holdable (a ++ b :: s)) (hb : b < 0x80) :
    Holdable a ∧ Holdable s := by
  rw [Holdable, Bytes.glyphs_append a (Bytes.not_continuation_of_ascii hb), Bytes.glyphs_ascii hb,
    List.forall_mem_append, List.forall_mem_cons] at h
  exact ⟨h.1, h.2.2⟩

theorem keeps_of_plain {n : Nat} (hn : n = 10 ∨ 32 ≤ n) (hlt : n < 127) : keeps (.char (Char.ofNat n)) := by
  have hnat := Bytes.toNat_charOfNat (n := n) (.inl (by omega))
  rcases hn with rfl | hle
  · rfl
  · have hne : ∀ c : Char, c.toNat ≠ n → Char.ofNat n ≠ c := fun c hc h => hc (by rw [← h, hnat])
    have hreturn := hne '\r' (by rw [show '\r'.toNat = 13 from rfl]; omega)
    have hnewline := hne '\n' (by rw [show '\n'.toNat = 10 from rfl]; omega)
    have htab := hne '\t' (by rw [show '\t'.toNat = 9 from rfl]; omega)
    have hreplacement := hne Bytes.replacement (by rw [show Bytes.replacement.toNat = 0xFFFD from rfl]; omega)
    have hcontrol : isControl (Char.ofNat n) = false := by
      simp only [isControl, hnat, Bool.or_eq_false_iff, Bool.and_eq_false_iff, decide_eq_false_iff_not]
      omega
    simp [keeps, cleanChar, hreturn, hnewline, htab, hreplacement, hcontrol]

theorem Plain.holdable {t : Bytes} (h : Plain t) : Holdable t := by
  induction t with
  | nil => exact holdable_nil
  | cons b t ih =>
    obtain ⟨hb, ht⟩ := List.forall_mem_cons.mp h
    have hn : (b.toNat = 10 ∨ 32 ≤ b.toNat) ∧ b.toNat < 127 := by
      have hplain : b = Bytes.newline ∨ 32 ≤ b ∧ b < 127 := by simpa [isPlain] using hb
      rcases hplain with rfl | ⟨hle, hlt⟩
      · decide
      · exact ⟨.inr (UInt8.le_iff_toNat_le.mp hle), UInt8.lt_iff_toNat_lt.mp hlt⟩
    have hascii : b < 0x80 := UInt8.lt_iff_toNat_lt.mpr (Nat.lt_trans hn.2 (by decide))
    rw [Holdable, Bytes.glyphs_ascii hascii, List.forall_mem_cons]
    exact ⟨keeps_of_plain hn.1 hn.2, ih ht⟩

theorem Plain.append {a b : Bytes} (ha : Plain a) (hb : Plain b) : Plain (a ++ b) :=
  List.forall_mem_append.mpr ⟨ha, hb⟩

theorem plain_of_visible {t : Bytes} (h : Visible t) : Plain t := fun b hb => by simp [isPlain, h b hb]

theorem plain_of_allDigits {t : Bytes} (h : AllDigits t) : Plain t := plain_of_visible h.visible

theorem plain_ofInt64 (n : Int64) : Plain (Bytes.ofInt64 n) := plain_of_visible (Bytes.visible_ofInt64 n)

theorem plain_timestep {x : Binary64} (hx : x.isFinite) : Plain (Timestep.text x) := by
  obtain ⟨l, htext, -⟩ := Timestep.text_eq_literal hx
  have hwhole := plain_of_allDigits l.allDigits_whole
  have hpart := plain_of_allDigits l.allDigits_part
  have hminus : ∀ negative, Plain (Timestep.Literal.minus negative) := by decide
  have hpoint : Plain l.point := by
    rw [Timestep.Literal.point, Timestep.pointed]
    split
    · exact fun b hb => by cases hb
    · exact List.forall_mem_cons.mpr ⟨by decide, hpart⟩
  have hexponent : Plain (Timestep.exponentText l.exponent) := by
    rw [Timestep.exponentText_eq]
    have hdigits := plain_of_allDigits (Bytes.allDigits_zeroPadded 2 l.exponent.natAbs)
    exact List.forall_mem_cons.mpr ⟨by decide, (hminus _).append hdigits⟩
  rw [htext]
  exact (hminus _).append ((hwhole.append hpoint).append hexponent)

theorem holdable_quoteText {t : Bytes} (h : Holdable t) : Holdable (quoteText t) := by
  have hquote : Holdable [quote] := Plain.holdable (by decide)
  exact (hquote.append h).append hquote

theorem holdable_join {sep : Bytes} (hsep : Holdable sep) {parts : List Bytes} (h : ∀ t ∈ parts, Holdable t) :
    Holdable (Bytes.join sep parts) := by
  induction parts using Bytes.join.induct with
  | case1 => exact holdable_nil
  | case2 p => exact h p List.mem_cons_self
  | case3 p ps hne ih =>
    rw [Bytes.join.eq_3 _ _ _ hne]
    exact ((h p List.mem_cons_self).append hsep).append (ih fun t ht => h t (List.mem_cons_of_mem p ht))

theorem holdable_flatMap {α : Type} {f : α → Bytes} {as : List α} (h : ∀ a ∈ as, Holdable (f a)) :
    Holdable (as.flatMap f) := by
  induction as with
  | nil => exact holdable_nil
  | cons a as ih =>
    rw [List.flatMap_cons]
    exact (h a List.mem_cons_self).append (ih fun b hb => h b (List.mem_cons_of_mem a hb))

theorem holdable_wires (ws : List Wire) : Holdable (Bytes.join "," (ws.map Bytes.ofInt64)) :=
  holdable_join (Plain.holdable (by decide)) (List.forall_mem_map.mpr fun w _ => (plain_ofInt64 w).holdable)

theorem holdable_control (c : Control) : Holdable c.text := by
  have hrefs : Holdable (Bytes.join "," (c.refs.map ControlRef.text)) := by
    refine holdable_join (Plain.holdable (by decide)) (List.forall_mem_map.mpr fun r _ => Plain.holdable ?_)
    refine List.forall_mem_cons.mpr ⟨?_, plain_ofInt64 r.wire⟩
    split <;> decide
  rw [Control.text]
  split
  · split
    all_goals repeat' with_reducible apply Holdable.append
    all_goals first
      | exact hrefs
      | exact Plain.holdable (by decide)
  · exact Plain.holdable (by decide)

theorem holdable_starText (inverted : Bool) : Holdable (starText inverted) := by
  cases inverted <;> exact Plain.holdable (by decide)

theorem plain_rotationOp {op : RotationOp} (h : op.isKnown) : Plain op.name := by
  cases op with
  | unknown n => cases h
  | _ => decide

theorem holdable_call {c : Call} (hname : Holdable c.name) (hshape : Holdable c.shape) : Holdable c.text := by
  have hcount := (plain_ofInt64 c.repetitions).holdable
  have hrepetition : Holdable c.repetitionText := by
    rw [Call.repetitionText]
    split
    · exact holdable_nil
    · exact ((Plain.holdable (by decide)).append hcount).append (Plain.holdable (by decide))
  have hcontrol : Holdable c.controlText := by
    rw [Call.controlText]
    split
    · exact (Plain.holdable (by decide)).append (holdable_control c.control)
    · exact holdable_nil
  rw [Call.text]
  repeat' with_reducible apply Holdable.append
  all_goals first
    | exact hrepetition
    | exact hcontrol
    | exact holdable_quoteText hname
    | exact holdable_quoteText hshape
    | exact holdable_starText _
    | exact holdable_wires _
    | exact Plain.holdable (by decide)

theorem holdable_gate {g : Gate} (hg : g.Representable) (h : ∀ s ∈ g.strings, Holdable s) : Holdable g.text := by
  cases g with
  | named op inverted w control =>
    have hname := holdable_quoteText (plain_of_visible (Bytes.visible_opName op)).holdable
    rw [Gate.text]
    repeat' with_reducible apply Holdable.append
    all_goals first
      | exact hname
      | exact (plain_ofInt64 w).holdable
      | exact holdable_starText _
      | exact holdable_control control
      | exact Plain.holdable (by decide)
  | rotation op inverted step w =>
    have hname := holdable_quoteText (plain_rotationOp hg.1).holdable
    rw [Gate.text]
    repeat' with_reducible apply Holdable.append
    all_goals first
      | exact hname
      | exact (plain_timestep hg.2.1).holdable
      | exact (plain_ofInt64 w).holdable
      | exact holdable_starText _
      | exact Plain.holdable (by decide)
  | init value w label =>
    have hword : Holdable (initWord value) := by cases value <;> exact Plain.holdable (by decide)
    have hlabel : Holdable (initLabelText label) := by
      rw [initLabelText]
      split
      · exact holdable_nil
      · exact (Plain.holdable (by decide)).append (holdable_quoteText (h label (by simp [Gate.strings])))
    rw [Gate.text]
    repeat' with_reducible apply Holdable.append
    all_goals first
      | exact hword
      | exact hlabel
      | exact (plain_ofInt64 w).holdable
      | exact Plain.holdable (by decide)
  | comment text labels =>
    have htext := holdable_quoteText (h text List.mem_cons_self)
    have hlabels : ∀ l ∈ labels, Holdable l.text := by
      intro l hl
      have hlabel := holdable_quoteText (h l.label (List.mem_cons_of_mem _ (List.mem_map_of_mem hl)))
      exact ((plain_ofInt64 l.wire).holdable.append (Plain.holdable (by decide))).append hlabel
    rw [Gate.text]
    repeat' with_reducible apply Holdable.append
    all_goals first
      | exact htext
      | exact holdable_join (Plain.holdable (by decide)) (List.forall_mem_map.mpr hlabels)
      | exact Plain.holdable (by decide)
  | call c => exact holdable_call (h c.name (by simp [Gate.strings])) (h c.shape (by simp [Gate.strings]))

theorem holdable_line (direction : Direction) {ds : List Declaration} (h : Declaration.Representable ds) :
    Holdable (Declaration.line direction ds) := by
  have hname : Holdable direction.name := by cases direction <;> exact Plain.holdable (by decide)
  have hdeclarations : ∀ d ∈ ds, Holdable d.text := by
    intro d hd
    have htype : Holdable d.type.name := by
      rcases h.type_known d hd with hd | hd <;> rw [hd] <;> exact Plain.holdable (by decide)
    rw [Declaration.text]
    repeat' with_reducible apply Holdable.append
    all_goals first
      | exact htype
      | exact (plain_ofInt64 d.wire).holdable
      | exact Plain.holdable (by decide)
  have hlist : Holdable (Bytes.join "," (ds.map Declaration.text)) :=
    holdable_join (Plain.holdable (by decide)) (List.forall_mem_map.mpr hdeclarations)
  exact ((hname.append (Plain.holdable (by decide))).append hlist).append (Plain.holdable (by decide))

theorem holdable_circuit {c : Circuit} (hc : c.Representable) (h : ∀ s ∈ c.strings, Holdable s) :
    Holdable c.text := by
  have hgates : Holdable (c.gates.flatMap fun g => g.text ++ [Bytes.newline]) := by
    refine holdable_flatMap fun g hg => ?_
    have hgate := holdable_gate (hc.gates g hg) fun s hs => h s (List.mem_flatMap.mpr ⟨g, hg, hs⟩)
    exact hgate.append (Plain.holdable (by decide))
  exact ((holdable_line .inputs hc.inputs).append hgates).append (holdable_line .outputs hc.outputs)

theorem holdable_subroutine {u : Subroutine} (hu : u.Representable) (h : ∀ s ∈ u.strings, Holdable s) :
    Holdable u.text := by
  obtain ⟨hname, h⟩ := List.forall_mem_cons.mp h
  obtain ⟨hshape, hbody⟩ := List.forall_mem_cons.mp h
  have hcontrollable : Holdable u.controllable.name := by
    rcases hu.controllable_known with hk | hk | hk <;> rw [hk] <;> exact Plain.holdable (by decide)
  rw [Subroutine.text]
  repeat' with_reducible apply Holdable.append
  all_goals first
    | exact holdable_quoteText hname
    | exact holdable_quoteText hshape
    | exact hcontrollable
    | exact holdable_circuit hu.circuit hbody
    | exact Plain.holdable (by decide)

theorem holdable_text {p : Program} (hp : p.Representable) (h : ∀ s ∈ p.strings, Holdable s) : Holdable p.text := by
  obtain ⟨hmain, hsubs⟩ := List.forall_mem_append.mp h
  refine (holdable_circuit hp.main hmain).append (holdable_flatMap fun u hu => ?_)
  have hsub := holdable_subroutine (hp.subroutines u hu) fun s hs => hsubs s (List.mem_flatMap.mpr ⟨u, hu, hs⟩)
  have hnewline : Holdable [Bytes.newline] := Plain.holdable (by decide)
  exact hnewline.append hsub

end Editor

namespace Token

open Editor (Holdable)
open Tile (flat)

theorem exists_flat_of_mem {ts : List Tile} {t : Tile} (h : t ∈ ts) : ∃ a b, flat ts = a ++ (t.text ++ b) := by
  obtain ⟨us, vs, rfl⟩ := List.append_of_mem h
  exact ⟨flat us, flat vs, by simp⟩

theorem holdable_of_lex {file text : Bytes} {ts : List Token} (hlex : lex file text = .ok ts) (htext : Holdable text)
    {t : Token} (ht : t ∈ ts) (hkind : t.kind = .string) : Holdable (unquoted t) := by
  obtain ⟨-, rfl⟩ := lex_eq_ok.mp hlex
  rcases List.mem_append.mp ht with ht | ht
  · obtain ⟨u, hu, hukind, hutext⟩ := place_mem ht
    obtain ⟨inner, -, hinner⟩ := quoteText_of_tiles hu (by rw [hukind, hkind])
    obtain ⟨a, b, hflat⟩ := exists_flat_of_mem hu
    have hwhole := flat_tiles text
    rw [hflat, hinner] at hwhole
    generalize (tiles text).2 = rest at hwhole
    rw [← hwhole] at htext
    rw [unquoted_of_text (hutext.symm.trans hinner)]
    -- both quotes are ASCII, so the text may be cut in front of and behind what they hold
    have hsplit : Holdable (a ++ quote :: (inner ++ quote :: (b ++ rest))) := by simpa [quoteText] using htext
    exact ((hsplit.split (by decide)).2.split (by decide)).1
  · rw [List.mem_singleton.mp ht] at hkind
    cases hkind

end Token

theorem holdable_text_of_parse {o : ReadOptions} {source : Bytes} {cp : CheckedProgram}
    (h : Source.parse o source = .ok cp) (hsource : Editor.Holdable source) : Editor.Holdable cp.program.text := by
  have hp := representable_of_parse h
  obtain ⟨ts, t, hlex, htree, hread, -, -⟩ := parse_cases h
  obtain ⟨u, eof, rfl, heof, hu⟩ := Token.lex_ok hlex
  have hentry : Rule.isEntry .program := rfl
  obtain ⟨before, w, after, rfl, -, -, hw⟩ :=
    Grammar.derives_of_parseTokens hentry heof (fun t ht => (hu t ht).1) htree
  refine Editor.holdable_text hp fun s hs => ?_
  rcases strings_program hw hread s hs with rfl | ⟨t, ht, hkind, rfl⟩
  · exact Editor.holdable_nil
  · exact Token.holdable_of_lex hlex hsource (by simp [ht]) hkind

end CircuitDesk
