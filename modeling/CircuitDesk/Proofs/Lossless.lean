import Mathlib.Data.List.Induction
import CircuitDesk.Proofs.Glyphs
import CircuitDesk.Proofs.Patterns
import CircuitDesk.Proofs.Positions

/-!
Lexing loses nothing of a text. Its tokens and the blanks between them are the whole text again, each token stands
where it starts, and a text that is not read is cut as far as the rules reach.
-/
namespace CircuitDesk

namespace Position

def lastLine (s : Bytes) : Bytes := (s.reverse.takeWhile (· ≠ Bytes.newline)).reverse

def behind (file front : Bytes) : Position where
  file := file
  offset := front.length
  line := 1 + front.count Bytes.newline
  column := 1 + Bytes.charCount (lastLine front)

theorem behind_nil (file : Bytes) : behind file [] = start file := by
  simp [behind, start, lastLine, Bytes.charCount, Bytes.glyphs]

theorem lastLine_append_of_mem (a : Bytes) {s : Bytes} (hs : Bytes.newline ∈ s) : lastLine (a ++ s) = lastLine s := by
  have hstop : (s.reverse.takeWhile (· ≠ Bytes.newline)).length ≠ s.reverse.length := by
    intro h
    have hall : s.reverse.takeWhile (· ≠ Bytes.newline) = s.reverse := (List.takeWhile_prefix _).eq_of_length h
    have hnewline := List.mem_reverse.mpr hs
    rw [← hall] at hnewline
    simpa using List.all_eq_true.mp List.all_takeWhile _ hnewline
  rw [lastLine, List.reverse_append, List.takeWhile_append, if_neg hstop, lastLine]

theorem lastLine_append_of_not_mem (a : Bytes) {s : Bytes} (hs : Bytes.newline ∉ s) :
    lastLine (a ++ s) = lastLine a ++ s := by
  have hall : ∀ b ∈ s.reverse, decide (b ≠ Bytes.newline) = true := by
    intro b hb
    apply decide_eq_true
    rintro rfl
    exact hs (List.mem_reverse.mp hb)
  rw [lastLine, List.reverse_append, List.takeWhile_append_of_pos hall, List.reverse_append, List.reverse_reverse,
    lastLine]

theorem advance_behind (file front : Bytes) {s : Bytes} (hs : ∀ b ∈ s.head?, b < 0x80) :
    (behind file front).advance s = behind file (front ++ s) := by
  have hstart : ∀ b ∈ s.head?, Bytes.isContinuation b = false := fun b hb => Bytes.not_continuation_of_ascii (hs b hb)
  simp only [advance, behind, List.length_append, List.count_append, Nat.add_assoc]
  congr 1
  split
  · next hnewline => rw [lastLine_append_of_mem front hnewline, lastLine]
  · next hnewline => rw [lastLine_append_of_not_mem front hnewline, Bytes.charCount_append _ hstart]

end Position

namespace Token

open Bytes (isDigit quote)
open Tile (Cut Fits flat)

theorem literal_of_not_ascii {words : List Bytes} (hwords : ∀ w ∈ words, w.head?.any (· < 0x80)) {b : UInt8}
    (hb : ¬ b < 0x80) (s : Bytes) : literal words (b :: s) = none := by
  rw [literal, List.find?_eq_none.mpr, Option.map_none]
  intro w hw
  have hhead := hwords w hw
  cases w with
  | nil => cases hhead
  | cons c w =>
    have hne : c ≠ b := fun h => hb (by simpa [h] using hhead)
    simp [List.isPrefixOf, hne]

theorem ascii_of_isWordByte {b : UInt8} (h : isWordByte b) : b < 0x80 := by
  simp only [isWordByte, isDigit, Bool.or_eq_true, Bool.and_eq_true, decide_eq_true_eq, UInt8.le_iff_toNat_le] at h
  rw [UInt8.lt_iff_toNat_lt]
  rcases h with ((⟨-, h⟩ | ⟨-, h⟩) | ⟨-, h⟩) | rfl
  · exact Nat.lt_of_le_of_lt h (by decide)
  · exact Nat.lt_of_le_of_lt h (by decide)
  · exact Nat.lt_of_le_of_lt h (by decide)
  · decide

theorem ascii_of_firstLexeme {b : UInt8} {s : Bytes} {kind : Option Kind} {n : Nat}
    (h : firstLexeme (b :: s) = some (kind, n)) : b < 0x80 := by
  apply Classical.byContradiction
  intro hb
  have hne (c : UInt8) (hc : c < 0x80) : b ≠ c := fun h => hb (h ▸ hc)
  have hblank : isBlank b = false := by
    simp [isBlank, hne 32 (by decide), hne 9 (by decide), hne 13 (by decide)]
  have hword : isWordByte b = false := by simpa using fun h => hb (ascii_of_isWordByte h)
  have hdigit : isDigit b = false := by
    simp only [isWordByte, Bool.or_eq_false_iff] at hword
    exact hword.1.1.1
  obtain ⟨c, hc, -, hlen⟩ := firstLexeme_class h
  have hnone : c.2 (b :: s) = none := by
    simp only [lexemes, List.mem_cons, List.not_mem_nil, or_false] at hc
    rcases hc with rfl | rfl | rfl | rfl | rfl | rfl | rfl | rfl | rfl | rfl | rfl
    · simp [blankRun, hblank]
    · exact literal_of_not_ascii (by decide) hb s
    · simp [floatLexeme, optional, hne 45 (by decide), digitRun, hdigit]
    · simp [integerLexeme, optional, hne 45 (by decide), hne 43 (by decide), digitRun, hdigit]
    · simp [stringLexeme, hne quote (by decide)]
    · exact literal_of_not_ascii (by decide) hb s
    · exact literal_of_not_ascii (by decide) hb s
    · simp [repetitionLexeme, hne 120 (by decide)]
    · have hempty : (b :: s).takeWhile isWordByte = [] := by simp [hword]
      simp only [keywordLexeme, hempty]
      rfl
    · exact literal_of_not_ascii (by decide) hb s
    · exact literal_of_not_ascii (by decide) hb s
  rw [hnone] at hlen
  cases hlen

theorem isBlank_of_blankRun {s : Bytes} {n : Nat} (h : blankRun s = some n) : ∀ b ∈ s.take n, isBlank b := by
  simp only [blankRun] at h
  split at h
  · cases h
  · cases h
    have htake : s.take (s.takeWhile isBlank).length = s.takeWhile isBlank :=
      List.prefix_iff_eq_take.mp (List.takeWhile_prefix _) |>.symm
    rw [htake]
    exact List.all_eq_true.mp List.all_takeWhile

theorem Tile.Fits.isBlank {t : Tile} {rest : Bytes} (h : t.Fits rest) (hkind : t.kind = none) :
    ∀ b ∈ t.text, isBlank b := by
  obtain ⟨c, hc, hclass, hlen⟩ := firstLexeme_class h.2
  have hrun : c.2 = blankRun := by
    have hkinds : ∀ c ∈ lexemes, c.1 = none → c.2 = blankRun := by simp [lexemes]
    exact hkinds c hc (hclass.trans hkind)
  rw [hrun] at hlen
  have hblank := isBlank_of_blankRun hlen
  rwa [List.take_left] at hblank

theorem Tile.Fits.ascii {t : Tile} {rest : Bytes} (h : t.Fits rest) : ∀ b ∈ t.text.head?, b < 0x80 := by
  intro b hb
  obtain ⟨s, hs⟩ := List.head?_eq_some_iff.mp hb
  have hfirst := h.2
  rw [hs, List.cons_append] at hfirst
  exact ascii_of_firstLexeme hfirst

theorem place_stop {ts : List Tile} {rest : Bytes} (h : Cut ts rest) (file front : Bytes) :
    (place (.behind file front) ts).2 = .behind file (front ++ flat ts) := by
  induction ts generalizing front with
  | nil => simp [place]
  | cons t ts ih =>
    obtain ⟨hfits, hcut⟩ := h
    rw [place_cons_stop, Position.advance_behind file front hfits.ascii, ih hcut, flat_cons, List.append_assoc]

abbrev Items : Type := List (Bytes × Token)

namespace Items

def text (items : Items) : Bytes := items.flatMap fun i => i.1 ++ i.2.text

/-- Behind some text there are blanks, then a token that the rules take there, and so on; the end of the input is taken
by no rule. -/
def Stand (file front : Bytes) (items : Items) : Prop :=
  ∀ before gap t after, items = before ++ (gap, t) :: after →
    (∀ b ∈ gap, isBlank b) ∧ t.pos = .behind file (front ++ text before ++ gap) ∧
      (t.kind ≠ .endOfInput → firstMatch (t.text ++ text after) = some (some t.kind, t.text.length))

theorem text_cons (gap : Bytes) (t : Token) (items : Items) : text ((gap, t) :: items) = gap ++ t.text ++ text items :=
  rfl

variable {file front gap : Bytes} {t : Token} {items : Items}

theorem Stand.last (hgap : ∀ b ∈ gap, isBlank b) (hpos : t.pos = .behind file (front ++ gap))
    (hkind : t.kind = .endOfInput) : Stand file front [(gap, t)] := by
  intro before gap' t' after h
  cases before with
  | nil =>
    cases h
    refine ⟨hgap, ?_, fun hne => absurd hkind hne⟩
    simpa [text] using hpos
  | cons i before => simp at h

theorem Stand.cons (hgap : ∀ b ∈ gap, isBlank b) (hpos : t.pos = .behind file (front ++ gap))
    (hfirst : firstMatch (t.text ++ text items) = some (some t.kind, t.text.length))
    (hlater : Stand file (front ++ gap ++ t.text) items) : Stand file front ((gap, t) :: items) := by
  intro before gap' t' after h
  cases before with
  | nil =>
    cases h
    refine ⟨hgap, ?_, fun _ => hfirst⟩
    simpa [text] using hpos
  | cons i before =>
    rw [List.cons_append] at h
    obtain ⟨rfl, rfl⟩ := List.cons.inj h
    have hstands := hlater before gap' t' after rfl
    rw [text_cons]
    simpa only [List.append_assoc] using hstands

theorem Stand.tail (h : Stand file front ((gap, t) :: items)) : Stand file (front ++ gap ++ t.text) items := by
  intro before gap' t' after hitems
  have hstands := h ((gap, t) :: before) gap' t' after (by rw [hitems, List.cons_append])
  rw [text_cons] at hstands
  simpa only [List.append_assoc] using hstands

end Items

theorem exists_items {ts : List Tile} (hcut : Cut ts []) (file front gap : Bytes) (hgap : ∀ b ∈ gap, isBlank b) :
    ∃ items : Items, items.map Prod.snd = (place (.behind file (front ++ gap)) ts).1 ++
        [⟨.endOfInput, [], (place (.behind file (front ++ gap)) ts).2⟩] ∧
      items.text = gap ++ flat ts ∧ items.Stand file front := by
  induction ts generalizing front gap with
  | nil => exact ⟨[(gap, _)], rfl, by simp [Items.text], .last hgap rfl rfl⟩
  | cons t ts ih =>
    obtain ⟨hfits, hcut⟩ := hcut
    have hadvance := Position.advance_behind file (front ++ gap) hfits.ascii
    cases hkind : t.kind with
    | none =>
      -- blanks go to the gap of the next token
      have hblank : ∀ b ∈ gap ++ t.text, isBlank b := by
        intro b hb
        rcases List.mem_append.mp hb with hb | hb
        · exact hgap b hb
        · exact hfits.isBlank hkind b hb
      obtain ⟨items, htokens, htext, hstand⟩ := ih hcut front (gap ++ t.text) hblank
      refine ⟨items, ?_, ?_, hstand⟩
      · rw [htokens, place]
        simp only [hkind, hadvance, List.append_assoc]
      · rw [htext, flat_cons, List.append_assoc]
    | some k =>
      obtain ⟨items, htokens, htext, hstand⟩ := ih hcut (front ++ gap ++ t.text) [] (by simp)
      rw [List.append_nil] at htokens
      refine ⟨(gap, ⟨k, t.text, .behind file (front ++ gap)⟩) :: items, ?_, ?_, .cons hgap rfl ?_ hstand⟩
      · rw [List.map_cons, htokens, place]
        simp only [hkind, hadvance, List.cons_append]
      · rw [Items.text_cons, htext, flat_cons]
        simp
      · have hfirst := hfits.2
        rw [List.append_nil, hkind, firstLexeme_eq_firstMatch] at hfirst
        rw [htext]
        exact hfirst

structure Tiled (file text : Bytes) (ts : List Token) : Prop where
  tiling : ∃ items : Items, items.map Prod.snd = ts ∧ items.text = text ∧ items.Stand file []
  closed : ∃ init eof, ts = init ++ [eof] ∧ (∀ t ∈ init, t.kind ≠ .endOfInput) ∧ eof.kind = .endOfInput ∧
    eof.text = [] ∧ eof.pos.offset = text.length

/-- The starts of a text that end where some steps by the first rule that matches lead. -/
inductive Reached (text : Bytes) : Bytes → Prop
  | start : Reached text []
  | step {front lexeme rest : Bytes} {kind : Option Kind} : Reached text front →
      text = front ++ (lexeme ++ rest) → firstMatch (lexeme ++ rest) = some (kind, lexeme.length) →
      Reached text (front ++ lexeme)

structure Stuck (file text : Bytes) (e : LexFault) : Prop where
  place : ∃ front, text = front ++ e.rest ∧ e.pos = .behind file front ∧ Reached text front ∧
    ∀ front', Reached text front' → front' <+: front
  rest_ne_nil : e.rest ≠ []
  unmatched : ∀ r ∈ patterns, r.2.length? e.rest = none

def Lexed (file text : Bytes) : Except LexFault (List Token) → Prop
  | .ok ts => Tiled file text ts
  | .error e => Stuck file text e

theorem Reached.cut {text front : Bytes} (h : Reached text front) :
    ∃ ts rest, front = flat ts ∧ text = flat ts ++ rest ∧ Cut ts rest := by
  induction h with
  | start => exact ⟨[], text, rfl, rfl, trivial⟩
  | @step front lexeme rest kind _ htext hfirst ih =>
    obtain ⟨ts, rest', rfl, htext', hcut⟩ := ih
    have hrest : rest' = lexeme ++ rest := List.append_cancel_left (htext'.symm.trans htext)
    rw [← firstLexeme_eq_firstMatch] at hfirst
    have hpos : 0 < lexeme.length := (taken_firstLexeme hfirst).1
    have hfits : Tile.Fits ⟨kind, lexeme⟩ rest := ⟨List.length_pos_iff.mp hpos, hfirst⟩
    refine ⟨ts ++ [⟨kind, lexeme⟩], rest, by simp, by simp [htext], cut_append.mpr ⟨?_, by simpa [Cut] using hfits⟩⟩
    simpa [hrest] using hcut

theorem reached_of_cut {text : Bytes} {ts : List Tile} {rest : Bytes} (htext : text = flat ts ++ rest)
    (h : Cut ts rest) : Reached text (flat ts) := by
  induction ts using List.reverseRecOn generalizing rest with
  | nil => exact .start
  | append_singleton ts t ih =>
    obtain ⟨hcut, hfits, -⟩ := cut_append.mp h
    have hlast : flat [t] = t.text := by simp
    have htext' : text = flat ts ++ (t.text ++ rest) := by simpa using htext
    rw [hlast] at hcut
    rw [flat_append, hlast]
    have hfirst : firstMatch (t.text ++ rest) = some (t.kind, t.text.length) := by
      rw [← firstLexeme_eq_firstMatch]
      exact hfits.2
    exact .step (ih htext' hcut) htext' hfirst

theorem flat_starts {text : Bytes} {ts : List Tile} {rest : Bytes} (htext : text = flat ts ++ rest) (h : Cut ts rest) :
    flat ts <+: flat (tiles text).1 := by
  rw [htext, tiles_of_cut h, flat_append]
  exact List.prefix_append _ _

theorem unmatched_of_firstMatch {s : Bytes} (h : firstMatch s = none) : ∀ r ∈ patterns, r.2.length? s = none := by
  intro r hr
  simpa using List.findSome?_eq_none_iff.mp h r hr

theorem place_tiles (file text : Bytes) :
    (place (.start file) (tiles text).1).2 = .behind file (flat (tiles text).1) := by
  rw [← Position.behind_nil, place_stop (cut_tiles text), List.nil_append]

theorem tiled_of_lex {file text : Bytes} {ts : List Token} (h : lex file text = .ok ts) : Tiled file text ts := by
  obtain ⟨hrest, htokens⟩ := lex_eq_ok.mp h
  obtain ⟨u, eof, hlast, -, hkinds⟩ := lex_ok h
  have hflat := flat_tiles text
  have hcut := cut_tiles text
  rw [hrest] at hcut
  rw [hrest, List.append_nil] at hflat
  obtain ⟨items, hitems, htext, hstand⟩ := exists_items hcut file [] [] (by simp)
  rw [List.append_nil, Position.behind_nil] at hitems
  rw [List.nil_append, hflat] at htext
  obtain ⟨rfl, hstop⟩ := List.append_inj' (hlast.symm.trans htokens) rfl
  obtain rfl := List.singleton_inj.mp hstop
  -- the tokens in front of the last are those of the tiles, whose kinds are known
  refine ⟨⟨items, hitems.trans htokens.symm, htext, hstand⟩, _, _, hlast, fun t ht => (hkinds t ht).1, rfl, rfl, ?_⟩
  rw [place_tiles, hflat]
  rfl

theorem stuck_of_lex {file text : Bytes} {e : LexFault} (h : lex file text = .error e) : Stuck file text e := by
  obtain ⟨hrest, rfl⟩ := lex_eq_error.mp h
  have hflat := flat_tiles text
  have hcut := cut_tiles text
  have hnone := firstLexeme_rest hrest
  rw [firstLexeme_eq_firstMatch] at hnone
  refine ⟨⟨_, hflat.symm, place_tiles file text, reached_of_cut hflat.symm hcut, fun front' hreached => ?_⟩, hrest,
    unmatched_of_firstMatch hnone⟩
  obtain ⟨ts, rest, rfl, htext, hcut'⟩ := hreached.cut
  exact flat_starts htext hcut'

/-- Lexing keeps all of a text, and stops only where no rule goes on. -/
theorem lex_lexed (file text : Bytes) : Lexed file text (lex file text) := by
  cases h : lex file text with
  | ok ts => exact tiled_of_lex h
  | error e => exact stuck_of_lex h

end Token

end CircuitDesk
