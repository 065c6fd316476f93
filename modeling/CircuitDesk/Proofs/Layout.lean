import CircuitDesk.Proofs.Lossless
import CircuitDesk.Proofs.Neighbours
import CircuitDesk.Proofs.Stretched

namespace CircuitDesk

namespace Token

open Bytes (StopsAt newline)
open Grammar (Stretched)
open Tile (Cut Fits flat)
open CircuitDesk.Tree.Reading (Newlines isNewline newlines_nil)

def Blank (gap : Bytes) : Prop := ∀ b ∈ gap, isBlank b

def Regapped (gap gap' : Bytes) : Prop := gap' = gap ∨ gap' ≠ [] ∧ Blank gap'

inductive NewlineRun : Bytes → Prop
  | one : NewlineRun [newline]
  | more {gap run : Bytes} : Blank gap → NewlineRun run → NewlineRun (newline :: (gap ++ run))

namespace Items

inductive Relaid : Items → Bytes → Prop
  | nil : Relaid [] []
  | token {gap gap' rest : Bytes} {t : Token} {items : Items} : Regapped gap gap' → Relaid items rest →
      Relaid ((gap, t) :: items) (gap' ++ (t.text ++ rest))
  | newlines {gap gap' run rest : Bytes} {t : Token} {items : Items} : Regapped gap gap' → t.kind = .newline →
      NewlineRun run → Relaid items rest → Relaid ((gap, t) :: items) (gap' ++ (run ++ rest))

inductive Reads : Items → List Token → Prop
  | last {gap : Bytes} {eof : Token} : Blank gap → eof.kind = .endOfInput → eof.text = [] → Reads [(gap, eof)] []
  | cons {gap : Bytes} {t : Token} {items : Items} {u : List Token} : Blank gap → t.kind ≠ .endOfInput →
      Fits ⟨some t.kind, t.text⟩ items.text → Reads items u → Reads ((gap, t) :: items) (t :: u)

theorem reads_of_stand {file front : Bytes} {items : Items} {init : List Token} {eof : Token}
    (hstand : items.Stand file front) (htokens : items.map Prod.snd = init ++ [eof])
    (hinit : ∀ t ∈ init, t.kind ≠ .endOfInput) (heof : eof.kind = .endOfInput) (htext : eof.text = []) :
    Reads items init := by
  induction init generalizing items front with
  | nil =>
    obtain ⟨⟨gap, t⟩, _, rfl, rfl, hnil⟩ := List.map_eq_cons_iff.mp htokens
    rw [List.map_eq_nil_iff.mp hnil] at hstand ⊢
    exact .last (hstand [] gap t [] rfl).1 heof htext
  | cons t init ih =>
    obtain ⟨⟨gap, t⟩, later, rfl, rfl, hlater⟩ := List.map_eq_cons_iff.mp htokens
    obtain ⟨hkind, hinit⟩ := List.forall_mem_cons.mp hinit
    obtain ⟨hgap, -, hfirst⟩ := hstand [] gap t later rfl
    have hfirst := hfirst hkind
    rw [← firstLexeme_eq_firstMatch] at hfirst
    exact .cons hgap hkind ⟨List.length_pos_iff.mp (taken_firstLexeme hfirst).1, hfirst⟩
      (ih hstand.tail hlater hinit)

end Items

def gapTiles (gap : Bytes) : List Tile := if gap = [] then [] else [⟨none, gap⟩]

theorem flat_gapTiles (gap : Bytes) : flat (gapTiles gap) = gap := by
  rw [gapTiles]
  split <;> simp [*]

theorem cut_gapTiles {gap rest : Bytes} (hgap : Blank gap) (hrest : StopsAt isBlank rest) :
    Cut (gapTiles gap) rest := by
  rw [gapTiles]
  split
  · trivial
  · next hne => exact ⟨fits_blanks hne hgap hrest, trivial⟩

theorem place_gapTiles (gap : Bytes) (p : Position) (ts : List Tile) :
    ∃ q, (place p (gapTiles gap ++ ts)).1 = (place q ts).1 := by
  rw [gapTiles]
  split
  · exact ⟨p, rfl⟩
  · exact ⟨p.advance gap, rfl⟩

theorem NewlineRun.stops {run : Bytes} (h : NewlineRun run) (rest : Bytes) : StopsAt isBlank (run ++ rest) := by
  cases h <;> exact Bytes.stopsAt_cons _ rfl

theorem NewlineRun.tiles {run : Bytes} (h : NewlineRun run) :
    ∃ ts, flat ts = run ∧ (∀ rest, Cut ts rest) ∧ ∀ p, Newlines (place p ts).1 ∧ (place p ts).1 ≠ [] := by
  have hfits (rest : Bytes) : Fits ⟨some .newline, [newline]⟩ rest := fits_fixed (by decide) rest
  have hnewline (p : Position) : isNewline ⟨.newline, [newline], p⟩ := rfl
  induction h with
  | one =>
    refine ⟨[⟨some .newline, [newline]⟩], rfl, fun rest => ⟨hfits _, trivial⟩, fun p => ⟨?_, List.cons_ne_nil _ _⟩⟩
    exact List.forall_mem_cons.mpr ⟨hnewline p, newlines_nil⟩
  | @more gap run hgap hrun ih =>
    obtain ⟨ts, rfl, hcut, hplace⟩ := ih
    refine ⟨⟨some .newline, [newline]⟩ :: (gapTiles gap ++ ts), ?_, fun rest => ⟨hfits _, ?_⟩, fun p => ?_⟩
    · rw [flat_cons, flat_append, flat_gapTiles]
      rfl
    · exact cut_append.mpr ⟨cut_gapTiles hgap (hrun.stops rest), hcut rest⟩
    · obtain ⟨q, hq⟩ := place_gapTiles gap (p.advance [newline]) ts
      rw [place_cons, hq]
      exact ⟨List.forall_mem_cons.mpr ⟨hnewline p, (hplace q).1⟩, List.cons_ne_nil _ _⟩

theorem stops_of_fits {t : Tile} {rest : Bytes} (h : t.Fits rest) (hkind : t.kind ≠ none) :
    StopsAt isBlank (t.text ++ rest) := by
  intro b hb
  apply Bool.eq_false_iff.mpr
  intro hblank
  obtain ⟨s, hs⟩ := List.head?_eq_some_iff.mp hb
  have hfirst := h.2
  rw [hs] at hfirst
  have hrun : blankRun (b :: s) = some ((s.takeWhile isBlank).length + 1) := by
    simp [blankRun, hblank]
  rw [firstLexeme_of_split [] rfl (by simp) hrun] at hfirst
  exact hkind (congrArg Prod.fst (Option.some.inj hfirst)).symm

theorem Regapped.blank {gap gap' : Bytes} (h : Regapped gap gap') (hgap : Blank gap) : Blank gap' := by
  obtain rfl | ⟨-, hblank⟩ := h
  · exact hgap
  · exact hblank

theorem mem_spacing_of_isBlank {b : UInt8} (h : isBlank b) : b ∈ spacing := by
  simp only [isBlank, Bool.or_eq_true, decide_eq_true_eq] at h
  rcases h with (rfl | rfl) | rfl <;> decide

theorem stopsAt_gap {p : UInt8 → Bool} (hp : spacing.all (!p ·)) {gap s : Bytes} (hgap : Blank gap)
    (hs : StopsAt p s) : StopsAt p (gap ++ s) := by
  cases gap with
  | nil => exact hs
  | cons b gap =>
    have hb := List.all_eq_true.mp hp b (mem_spacing_of_isBlank (hgap b List.mem_cons_self))
    exact Bytes.stopsAt_cons _ (by simpa using hb)

theorem goesOn_of_regapped {gap gap' s s' : Bytes} (hgap : Regapped gap gap') (h : GoesOn s s') :
    GoesOn (gap ++ s) (gap' ++ s') := by
  obtain rfl | ⟨hne, hblank⟩ := hgap
  · cases gap' with
    | nil => exact h
    | cons b gap => exact .inl rfl
  · obtain ⟨b, gap', rfl⟩ := List.exists_cons_of_ne_nil hne
    refine .inr ?_
    rintro _ ⟨⟩
    exact mem_spacing_of_isBlank (hblank b List.mem_cons_self)

namespace Items

variable {items : Items} {u : List Token} {text : Bytes}

/-- What the tokens and the text leave open is where the blanks are, and they are in front of the tokens. -/
theorem Reads.unique (h : Reads items u) {items' : Items} (htokens : items'.map Prod.snd = items.map Prod.snd)
    (htext : items'.text = items.text) (hgaps : ∀ i ∈ items', Blank i.1) : items' = items := by
  induction h generalizing items' with
  | @last gap eof hblank hkind hnone =>
    obtain ⟨⟨gap', t⟩, later, rfl, rfl, hnil⟩ := List.map_eq_cons_iff.mp htokens
    obtain rfl := List.map_eq_nil_iff.mp hnil
    have hgap : gap' = gap := by simpa [Items.text, hnone] using htext
    rw [hgap]
  | @cons gap t items u hblank hkind hfits h ih =>
    obtain ⟨⟨gap', t⟩, later, rfl, rfl, hlater⟩ := List.map_eq_cons_iff.mp htokens
    obtain ⟨hblank', hgaps⟩ := List.forall_mem_cons.mp hgaps
    -- a token starts with no blank, so the gap in front of it is all the blanks that the text starts with
    have hstop {s : Bytes} : StopsAt isBlank (t.text ++ s) := by
      obtain ⟨b, r, hr⟩ := List.exists_cons_of_ne_nil hfits.1
      have hfirst := stops_of_fits hfits (Option.some_ne_none _)
      rw [show t.text = b :: r from hr] at hfirst ⊢
      exact Bytes.stopsAt_cons _ (hfirst b rfl)
    rw [text_cons, text_cons, List.append_assoc, List.append_assoc] at htext
    have hgap := congrArg (List.takeWhile isBlank) htext
    rw [Bytes.takeWhile_append_stop hblank' hstop, Bytes.takeWhile_append_stop hblank hstop] at hgap
    dsimp only at hgap
    subst hgap
    rw [ih hlater (List.append_cancel_left (List.append_cancel_left htext)) hgaps]

theorem Reads.stops (h : Reads items u) : StopsAt (fun b => b = 46 || b = 101) items.text := by
  cases h with
  | last hblank hkind htext =>
    rw [text_cons, htext, List.append_assoc]
    exact stopsAt_gap (by decide) hblank (Bytes.stopsAt_nil _)
  | cons hblank hkind hfits h =>
    rw [text_cons, List.append_assoc]
    exact stopsAt_gap (by decide) hblank (firstLexeme_start hfits.2)

theorem Reads.goesOn (h : Reads items u) (hr : items.Relaid text) : GoesOn items.text text := by
  cases hr with
  | nil => cases h
  | @token gap gap' rest t items hgap hr =>
    rw [text_cons, List.append_assoc]
    refine goesOn_of_regapped hgap (.inl ?_)
    cases h with
    | last hblank hkind htext =>
      cases hr
      rw [htext]
      rfl
    | cons hblank hkind hfits h =>
      obtain ⟨b, s, hs⟩ := List.exists_cons_of_ne_nil hfits.1
      rw [show t.text = b :: s from hs]
      rfl
  | newlines hgap hkind hrun hr =>
    rw [text_cons, List.append_assoc]
    refine goesOn_of_regapped hgap (.inr ?_)
    cases hrun <;> (rintro _ ⟨⟩; decide)

theorem Reads.relaid (h : Reads items u) (hr : items.Relaid text) :
    ∃ ts, flat ts = text ∧ Cut ts [] ∧ ∀ p, Stretched u (place p ts).1 := by
  induction h generalizing text with
  | last hblank hkind htext =>
    cases hr with
    | @token _ gap' _ _ _ hgap hr =>
      cases hr
      rw [htext]
      refine ⟨gapTiles gap', by simp [flat_gapTiles], cut_gapTiles (hgap.blank hblank) (Bytes.stopsAt_nil _),
        fun p => ?_⟩
      obtain ⟨q, hq⟩ := place_gapTiles gap' p []
      rw [List.append_nil] at hq
      rw [hq]
      exact .nil
    | newlines hgap hnewline =>
      rw [hkind] at hnewline
      cases hnewline
  | @cons gap t items u hblank hkind hfits h ih =>
    cases hr with
    | @token _ gap' _ _ _ hgap hr =>
      obtain ⟨ts, rfl, hcut, hplace⟩ := ih hr
      -- the token is cut off as before, since what follows it starts as before or with a blank
      have hfits' := hfits.goOn (Option.some_ne_none _) h.stops (h.goesOn hr)
      have hstop := stops_of_fits hfits' (Option.some_ne_none _)
      refine ⟨gapTiles gap' ++ ⟨some t.kind, t.text⟩ :: ts, by simp [flat_gapTiles], cut_append.mpr ⟨?_, ?_⟩,
        fun p => ?_⟩
      · simpa using cut_gapTiles (hgap.blank hblank) hstop
      · exact ⟨by simpa using hfits', hcut⟩
      · obtain ⟨q, hq⟩ := place_gapTiles gap' p (⟨some t.kind, t.text⟩ :: ts)
        rw [hq, place_cons]
        exact .token rfl (hplace _)
    | @newlines _ gap' run rest _ _ hgap hnewline hrun hr =>
      obtain ⟨ts, rfl, hcut, hplace⟩ := ih hr
      obtain ⟨ns, rfl, hcut', hplace'⟩ := hrun.tiles
      refine ⟨gapTiles gap' ++ (ns ++ ts), by simp [flat_gapTiles], cut_append.mpr ⟨?_, ?_⟩, fun p => ?_⟩
      · simpa using cut_gapTiles (hgap.blank hblank) (hrun.stops _)
      · exact cut_append.mpr ⟨hcut' _, hcut⟩
      · obtain ⟨q, hq⟩ := place_gapTiles gap' p (ns ++ ts)
        rw [hq, place_append]
        exact .newlines (by simp [isNewline, hnewline]) (hplace' q).1 (hplace' q).2 (hplace _)

end Items

/-- A text and a text that has its tokens in another layout: in front of each token, and behind the last, there may be
other blanks, and where there is a newline there may be more. -/
def Relaid (file text text' : Bytes) : Prop :=
  ∃ items : Items, lex file text = .ok (items.map Prod.snd) ∧ items.text = text ∧ (∀ i ∈ items, Blank i.1) ∧
    items.Relaid text'

theorem Items.relaid_text (items : Items) : items.Relaid items.text := by
  induction items with
  | nil => exact .nil
  | cons i items ih =>
    rw [text_cons, List.append_assoc]
    exact .token (.inl rfl) ih

theorem relaid_self {file text : Bytes} {ts : List Token} (h : lex file text = .ok ts) : Relaid file text text := by
  obtain ⟨⟨items, rfl, rfl, hstand⟩, -⟩ := tiled_of_lex h
  refine ⟨items, h, rfl, fun (gap, t) hi => ?_, items.relaid_text⟩
  obtain ⟨before, after, hsplit⟩ := List.append_of_mem hi
  exact (hstand before gap t after hsplit).1

theorem lex_relaid {file text text' : Bytes} (h : Relaid file text text') :
    ∃ u u' eof eof', lex file text = .ok (u ++ [eof]) ∧ lex file text' = .ok (u' ++ [eof']) ∧ Stretched u u' ∧
      (∀ t ∈ u, t.kind ≠ .endOfInput) ∧ eof.kind = .endOfInput ∧ eof'.kind = .endOfInput := by
  obtain ⟨items, hlex, htext, hgaps, hrelaid⟩ := h
  obtain ⟨⟨items', htokens, htext', hstand⟩, u, eof, hu, hkinds, heof, hempty, -⟩ := tiled_of_lex hlex
  have hreads := Items.reads_of_stand hstand (htokens.trans hu) hkinds heof hempty
  obtain rfl := hreads.unique htokens.symm (htext.trans htext'.symm) hgaps
  obtain ⟨ts, rfl, hcut, hplace⟩ := hreads.relaid hrelaid
  have htiles := tiles_of_cut hcut
  rw [List.append_nil] at htiles
  refine ⟨u, (place (.start file) ts).1, eof, ⟨.endOfInput, [], (place (.start file) ts).2⟩, hlex.trans (congrArg _ hu),
    lex_eq_ok.mpr ?_, hplace _, hkinds, heof, rfl⟩
  rw [htiles]
  simp [tiles]

end Token

/-- Values that are the same but for the places in a report, or texts that are refused for the same reason. -/
inductive SameValue : Except Fault RuleValue → Except Fault RuleValue → Prop
  | value {v v' : RuleValue} : v'.unplaced = v.unplaced → SameValue (.ok v) (.ok v')
  | fault {e e' : SemanticFault} : e'.literal = e.literal → e'.cause = e.cause →
      SameValue (.error (.semantic e)) (.error (.semantic e'))

theorem sameValue_of_alike {r r' : Checked RuleValue}
    (h : Checked.Alike (RuleValue.unplaced <$> r) (RuleValue.unplaced <$> r')) :
    SameValue (r.mapError .semantic) (r'.mapError .semantic) := by
  cases r <;> cases r'
  · have he := Except.error.inj h
    exact .fault (congrArg SemanticFault.literal he :) (congrArg SemanticFault.cause he :)
  · cases h
  · cases h
  · exact .value (Except.ok.inj h)

/-- A text that is accepted has a layout, and in any other it is accepted with the same tree, and has the same value or
is refused for the same reason. -/
theorem same_in_any_layout (rule : Rule) (o : ReadOptions) (text : Bytes) (t : Tree)
    (h : Source.tree rule o.file text = .ok t) :
    Token.Relaid o.file text text ∧ ∀ text', Token.Relaid o.file text text' →
      (∃ t', Source.tree rule o.file text' = .ok t' ∧ t'.text = t.text) ∧
        SameValue (Source.value rule o text) (Source.value rule o text') := by
  obtain ⟨hrule, ts, hlex, hparse⟩ := ruleTree_eq_ok.mp h
  refine ⟨Token.relaid_self hlex, fun text' hlayout => ?_⟩
  obtain ⟨u, u', eof, eof', hlex₁, hlex', hstretched, hu, heof, heof'⟩ := Token.lex_relaid hlayout
  obtain rfl := Except.ok.inj (hlex.symm.trans hlex₁)
  obtain ⟨t', hparse', hplaces⟩ := Grammar.parseTokens_stretched hrule hu heof heof' hstretched hparse
  have h' : Source.tree rule o.file text' = .ok t' := ruleTree_eq_ok.mpr ⟨hrule, _, hlex', hparse'⟩
  refine ⟨⟨t', h', ?_⟩, ?_⟩
  · rw [← Tree.text_unplaced t', hplaces, Tree.text_unplaced]
  · simp only [Source.value, h, h']
    exact sameValue_of_alike (valueOfTree_alike hplaces rule o.strict)

def labelledLine : Token.Items :=
  [([], ⟨.integer, "1", ⟨"f", 0, 1, 1⟩⟩), ([], ⟨.punctuation, ":", ⟨"f", 1, 1, 2⟩⟩),
    ([], ⟨.string, "\"a\"", ⟨"f", 2, 1, 3⟩⟩), ([], ⟨.newline, "\n", ⟨"f", 5, 1, 6⟩⟩),
    ([], ⟨.endOfInput, [], ⟨"f", 6, 2, 1⟩⟩)]

def oneBlank : Bytes := [32]

def labelledLineApart : Bytes :=
  oneBlank ++ (Bytes.ofString "1" ++ (oneBlank ++ (Bytes.ofString ":" ++ (oneBlank ++ (Bytes.ofString "\"a\"" ++
    (oneBlank ++ (Bytes.newline :: (oneBlank ++ [Bytes.newline]) ++ ([] ++ ([] ++ [])))))))))

theorem same_in_labelledLineApart :
    ∃ t, Source.tree .wire "f" labelledLine.text = .ok t ∧ Token.Relaid "f" labelledLine.text labelledLineApart ∧
      (∃ t', Source.tree .wire "f" labelledLineApart = .ok t' ∧ t'.text = t.text) ∧
      SameValue (Source.value .wire ⟨"f", true⟩ labelledLine.text)
        (Source.value .wire ⟨"f", true⟩ labelledLineApart) := by
  have hblank : Token.Blank oneBlank := by simp [Token.Blank, oneBlank, Token.isBlank]
  have hgap : Token.Regapped [] oneBlank := .inr ⟨by decide, hblank⟩
  have hlex : Token.lex "f" labelledLine.text = .ok (labelledLine.map Prod.snd) := by decide +kernel
  have hlayout : Token.Relaid "f" labelledLine.text labelledLineApart :=
    ⟨labelledLine, hlex, rfl, by simp [labelledLine, Token.Blank],
      .token hgap <| .token hgap <| .token hgap <| .newlines hgap rfl (.more hblank .one) <| .token (.inl rfl) .nil⟩
  obtain ⟨t, ht⟩ : ∃ t, Source.tree .wire "f" labelledLine.text = .ok t :=
    ⟨_, ruleTree_eq_ok.mpr ⟨rfl, _, hlex, rfl⟩⟩
  exact ⟨t, ht, hlayout, (same_in_any_layout .wire ⟨"f", true⟩ _ t ht).2 _ hlayout⟩

end CircuitDesk
