import CircuitDesk.Proofs.Representable
import CircuitDesk.Proofs.Timesteps
import CircuitDesk.Program.Text
import CircuitDesk.Token.Lexer

namespace CircuitDesk.Token

open Bytes (AllDigits Quotable StopsAt isDigit newline quote)

def Tile.Fits (t : Tile) (rest : Bytes) : Prop :=
  t.text ≠ [] ∧ firstLexeme (t.text ++ rest) = some (t.kind, t.text.length)

def Tile.flat (ts : List Tile) : Bytes := ts.flatMap Tile.text

def Tile.Cut : List Tile → Bytes → Prop
  | [], _ => True
  | t :: ts, rest => t.Fits (flat ts ++ rest) ∧ Cut ts rest

open Tile (Fits Cut flat)

@[simp] theorem flat_nil : flat [] = [] := rfl

@[simp] theorem flat_cons (t : Tile) (ts : List Tile) : flat (t :: ts) = t.text ++ flat ts := rfl

@[simp] theorem flat_append (ts us : List Tile) : flat (ts ++ us) = flat ts ++ flat us := List.flatMap_append

theorem cut_append {ts us : List Tile} {rest : Bytes} :
    Cut (ts ++ us) rest ↔ Cut ts (flat us ++ rest) ∧ Cut us rest := by
  induction ts with
  | nil => simp [Cut]
  | cons t ts ih =>
    rw [List.cons_append, Cut, Cut, ih, flat_append, List.append_assoc, and_assoc]

theorem tiles_of_fits {t : Tile} {rest : Bytes} (h : t.Fits rest) :
    tiles (t.text ++ rest) = (t :: (tiles rest).1, (tiles rest).2) := by
  obtain ⟨hne, hfirst⟩ := h
  obtain ⟨kind, text⟩ := t
  obtain ⟨b, s, rfl⟩ := List.exists_cons_of_ne_nil hne
  rw [List.cons_append] at hfirst ⊢
  rw [tiles, hfirst]
  simp

theorem tiles_of_cut {ts : List Tile} {rest : Bytes} (h : Cut ts rest) :
    tiles (flat ts ++ rest) = (ts ++ (tiles rest).1, (tiles rest).2) := by
  induction ts with
  | nil => rfl
  | cons t ts ih =>
    obtain ⟨hfits, hcut⟩ := h
    rw [flat_cons, List.append_assoc, tiles_of_fits hfits, ih hcut]
    rfl

theorem firstLexeme_of_split (earlier : List (Option Kind × (Bytes → Option Nat)))
    {later : List (Option Kind × (Bytes → Option Nat))} {kind : Option Kind} {len : Bytes → Option Nat}
    {s : Bytes} {n : Nat} (htable : lexemes = earlier ++ (kind, len) :: later) (hearlier : ∀ c ∈ earlier, c.2 s = none)
    (hlen : len s = some n) : firstLexeme s = some (kind, n) := by
  have hnone : earlier.findSome? (fun c => (c.2 s).map (c.1, ·)) = none := by
    rw [List.findSome?_eq_none_iff]
    intro c hc
    rw [hearlier c hc]
    rfl
  rw [firstLexeme, htable, List.findSome?_append, hnone]
  simp [hlen]

/-- What follows a word, a number or a repetition count: nothing that could belong to it. -/
def Apart (rest : Bytes) : Prop := StopsAt (fun b => isWordByte b || b = 46) rest

theorem Apart.word {rest : Bytes} (h : Apart rest) : StopsAt isWordByte rest := by
  intro b hb
  have := h b hb
  simp only [Bool.or_eq_false_iff] at this
  exact this.1

theorem Apart.digit {rest : Bytes} (h : Apart rest) : StopsAt isDigit rest := by
  intro b hb
  have := h.word b hb
  simp only [isWordByte, Bool.or_eq_false_iff] at this
  exact this.1.1.1

theorem Apart.wordEnds {rest : Bytes} (h : Apart rest) : wordEnds rest := by
  cases rest with
  | nil => rfl
  | cons b rest => simp [Token.wordEnds, h.word b rfl]

theorem apart_cons {b : UInt8} (rest : Bytes) (h : (isWordByte b || b = 46) = false) : Apart (b :: rest) :=
  Bytes.stopsAt_cons rest h

theorem digitRun_append {ds rest : Bytes} (hds : AllDigits ds) (hrest : StopsAt isDigit rest) :
    digitRun (ds ++ rest) = ds.length := by
  rw [digitRun, Bytes.takeWhile_append_stop hds hrest]

def NumberEnds (rest : Bytes) : Prop := StopsAt (fun b => isDigit b || b = 46 || b = 101) rest

theorem NumberEnds.digit {rest : Bytes} (h : NumberEnds rest) : StopsAt isDigit rest := by
  intro b hb
  have := h b hb
  simp only [Bool.or_eq_false_iff] at this
  exact this.1.1

theorem Apart.numberEnds {rest : Bytes} (h : Apart rest) : NumberEnds rest := by
  intro b hb
  have hapart := h b hb
  simp only [Bool.or_eq_false_iff, decide_eq_false_iff_not] at hapart
  have hexponent : b ≠ 101 := by
    rintro rfl
    exact Bool.noConfusion hapart.1
  simp [h.digit b hb, hapart.2, hexponent]

theorem fraction_of_numberEnds {rest : Bytes} (h : NumberEnds rest) : fraction rest = 0 := by
  cases rest with
  | nil => rfl
  | cons b rest =>
    have hb := h b rfl
    simp only [Bool.or_eq_false_iff, decide_eq_false_iff_not] at hb
    simp [fraction, hb.1.2]

theorem exponent_of_numberEnds {rest : Bytes} (h : NumberEnds rest) : exponent rest = none := by
  cases rest with
  | nil => rfl
  | cons b rest =>
    have hb := h b rfl
    simp only [Bool.or_eq_false_iff, decide_eq_false_iff_not] at hb
    simp [exponent, hb.2]

theorem blankRun_cons {b : UInt8} (s : Bytes) (h : isBlank b = false) : blankRun (b :: s) = none := by
  simp [blankRun, h]

theorem literal_newline_cons {b : UInt8} (s : Bytes) (h : b ≠ 10) : literal ["\n"] (b :: s) = none := by
  have hp : (Bytes.ofString "\n").isPrefixOf (b :: s) = false := by
    change (10 == b && true) = false
    simp [Ne.symm h]
  simp [literal, hp]

theorem isDigit_not_blank {b : UInt8} (h : isDigit b) : isBlank b = false ∧ b ≠ 10 := by
  have h32 : b ≠ 32 := Bytes.isDigit_ne h rfl
  have h9 : b ≠ 9 := Bytes.isDigit_ne h rfl
  have h13 : b ≠ 13 := Bytes.isDigit_ne h rfl
  exact ⟨by simp [isBlank, h32, h9, h13], Bytes.isDigit_ne h rfl⟩

def fixedTiles : List Tile :=
  [⟨some .newline, [newline]⟩, ⟨some .opener, "QGate["⟩, ⟨some .opener, "QRot["⟩, ⟨some .opener, "Comment["⟩,
    ⟨some .opener, "controls=["⟩, ⟨some .header, "Subroutine:"⟩, ⟨some .header, "Shape:"⟩,
    ⟨some .header, "Controllable:"⟩, ⟨some .arrow, "->"⟩, ⟨some .punctuation, "["⟩, ⟨some .punctuation, "]"⟩,
    ⟨some .punctuation, "("⟩, ⟨some .punctuation, ")"⟩, ⟨some .punctuation, ":"⟩, ⟨some .punctuation, ","⟩,
    ⟨some .punctuation, "*"⟩]

theorem fits_fixed {t : Tile} (ht : t ∈ fixedTiles) (rest : Bytes) : t.Fits rest := by
  simp only [fixedTiles, List.mem_cons, List.not_mem_nil, or_false] at ht
  rcases ht with rfl | rfl | rfl | rfl | rfl | rfl | rfl | rfl | rfl | rfl | rfl | rfl | rfl | rfl | rfl | rfl <;>
    exact ⟨by decide, rfl⟩

theorem fits_blanks {gap rest : Bytes} (hne : gap ≠ []) (hgap : ∀ b ∈ gap, isBlank b) (h : StopsAt isBlank rest) :
    Fits ⟨none, gap⟩ rest := by
  have hrun : blankRun (gap ++ rest) = some gap.length := by
    rw [blankRun, Bytes.takeWhile_append_stop hgap h]
    simp [hne]
  exact ⟨hne, firstLexeme_of_split [] rfl (by simp) hrun⟩

theorem fits_blank {rest : Bytes} (h : StopsAt isBlank rest) : Fits ⟨none, " "⟩ rest :=
  fits_blanks (by decide) (List.all_eq_true.mp rfl) h

theorem fits_string {s : Bytes} (hs : Quotable s) (rest : Bytes) : Fits ⟨some .string, quoteText s⟩ rest := by
  refine ⟨by simp [quoteText], ?_⟩
  have hinner : (s ++ (quote :: rest)).takeWhile (fun c => c ≠ quote && c ≠ newline) = s := by
    apply Bytes.takeWhile_append_stop
    · intro b hb
      obtain ⟨hq, hn⟩ := hs b hb
      simp [hq, hn]
    · exact Bytes.stopsAt_cons rest rfl
  have hstring : stringLexeme (quote :: (s ++ quote :: rest)) = some (s.length + 2) := by
    simp only [stringLexeme, hinner]
    simp
  have htext : quoteText s ++ rest = quote :: (s ++ quote :: rest) := by simp [quoteText]
  have hlength : (quoteText s).length = s.length + 2 := by simp [quoteText]
  rw [htext, hlength]
  refine firstLexeme_of_split (lexemes.take 4) rfl ?_ hstring
  simp only [lexemes, List.take_succ_cons, List.take_zero, List.forall_mem_cons]
  exact ⟨rfl, rfl, rfl, rfl, by simp⟩

def IsSign (signs sign : Bytes) : Prop := sign = [] ∨ ∃ b ∈ signs, sign = [b]

inductive IsNumeral (signs : Bytes) : Bytes → Prop
  | intro {sign ds : Bytes} : IsSign signs sign → ds ≠ [] → AllDigits ds → IsNumeral signs (sign ++ ds)

inductive IsFraction : Bytes → Prop
  | absent : IsFraction []
  | present {ds : Bytes} : ds ≠ [] → AllDigits ds → IsFraction (46 :: ds)

inductive IsExponent : Bytes → Prop
  | intro {sign ds : Bytes} : IsSign [45] sign → AllDigits ds → ds.length = 2 → IsExponent (101 :: (sign ++ ds))

inductive IsFloat : Bytes → Prop
  | intro {number point power : Bytes} : IsNumeral [45] number → IsFraction point → IsExponent power →
      IsFloat (number ++ (point ++ power))

theorem optional_append {signs sign s : Bytes} (h : IsSign signs sign) (hs : StopsAt (· ∈ signs) s) :
    optional signs (sign ++ s) = sign.length := by
  obtain rfl | ⟨b, hb, rfl⟩ := h
  · cases s with
    | nil => rfl
    | cons b s =>
      have hb : b ∉ signs := by simpa using hs b rfl
      simp [optional, hb]
  · simp [optional, hb]

theorem digits_stop {signs ds : Bytes} (hsigns : signs.all (!isDigit ·)) (hne : ds ≠ []) (hds : AllDigits ds)
    (s : Bytes) : StopsAt (· ∈ signs) (ds ++ s) := by
  obtain ⟨d, ds, rfl⟩ := List.exists_cons_of_ne_nil hne
  refine Bytes.stopsAt_cons _ (decide_eq_false fun hd => ?_)
  have hdigit := hds d (by simp)
  have hnot := List.all_eq_true.mp hsigns d hd
  rw [hdigit] at hnot
  cases hnot

theorem IsNumeral.first {text : Bytes} (h : IsNumeral [45, 43] text) (rest : Bytes) :
    ∃ b s, text ++ rest = b :: s ∧ isBlank b = false ∧ b ≠ 10 := by
  obtain ⟨rfl | ⟨b, hb, rfl⟩, hne, hds⟩ := h
  · obtain ⟨d, ds, rfl⟩ := List.exists_cons_of_ne_nil hne
    exact ⟨d, ds ++ rest, rfl, isDigit_not_blank (hds d (by simp))⟩
  · obtain rfl | rfl : b = 45 ∨ b = 43 := by simpa using hb
    · exact ⟨45, _, rfl, by decide⟩
    · exact ⟨43, _, rfl, by decide⟩

theorem IsNumeral.mono {signs signs' text : Bytes} (h : IsNumeral signs text) (hsub : signs ⊆ signs') :
    IsNumeral signs' text := by
  obtain ⟨hsign, hne, hds⟩ := h
  exact .intro (hsign.imp_right fun ⟨b, hb, h⟩ => ⟨b, hsub hb, h⟩) hne hds

theorem integerLexeme_append {text rest : Bytes} (h : IsNumeral [45, 43] text) (hrest : StopsAt isDigit rest) :
    integerLexeme (text ++ rest) = some text.length := by
  obtain ⟨hsign, hne, hds⟩ := h
  rename_i sign ds
  have hstop : StopsAt (· ∈ ([45, 43] : Bytes)) (ds ++ rest) := digits_stop (by decide) hne hds rest
  rw [List.append_assoc, integerLexeme, optional_append hsign hstop, List.drop_left, digitRun_append hds hrest]
  simp [hne]

theorem floatLexeme_numeral {text rest : Bytes} (h : IsNumeral [45, 43] text) (hrest : NumberEnds rest) :
    floatLexeme (text ++ rest) = none := by
  obtain ⟨hsign, hne, hds⟩ := h
  rename_i sign ds
  by_cases hplus : sign = [43]
  · subst hplus
    rfl
  · have hminus : IsSign [45] sign := by
      refine hsign.imp_right ?_
      rintro ⟨b, hb, rfl⟩
      have hne43 : b ≠ 43 := fun h => hplus (by rw [h])
      exact ⟨b, by simpa [hne43] using hb, rfl⟩
    have hstop : StopsAt (· ∈ ([45] : Bytes)) (ds ++ rest) := digits_stop (by decide) hne hds rest
    rw [List.append_assoc, floatLexeme, optional_append hminus hstop]
    simp only [← List.drop_drop, List.drop_left, digitRun_append hds hrest.digit, fraction_of_numberEnds hrest,
      List.drop_zero, exponent_of_numberEnds hrest, Option.map_none, ite_self]

theorem fits_integer {text rest : Bytes} (h : IsNumeral [45, 43] text) (hrest : NumberEnds rest) :
    Fits ⟨some .integer, text⟩ rest := by
  obtain ⟨b, s, hfirst, hblank, hnewline⟩ := h.first rest
  have hne : text ≠ [] := by
    rintro rfl
    obtain ⟨b, s, hnil, -⟩ := h.first []
    cases hnil
  refine ⟨hne, firstLexeme_of_split (lexemes.take 3) rfl ?_ (integerLexeme_append h hrest.digit)⟩
  simp only [lexemes, List.take_succ_cons, List.take_zero, List.forall_mem_cons]
  refine ⟨?_, ?_, floatLexeme_numeral h hrest, by simp⟩
  · rw [hfirst, blankRun_cons s hblank]
  · rw [hfirst, literal_newline_cons s hnewline]

theorem fraction_append {text s : Bytes} (h : IsFraction text) (hs : StopsAt (fun b => isDigit b || b = 46) s) :
    fraction (text ++ s) = text.length := by
  have hboth (b : UInt8) (hb : s.head? = some b) : isDigit b = false ∧ b ≠ 46 := by simpa using hs b hb
  cases h with
  | absent =>
    cases s with
    | nil => rfl
    | cons b s => simp [fraction, (hboth b rfl).2]
  | present hne hds =>
    have hrun := digitRun_append hds fun b hb => (hboth b hb).1
    simp [fraction, hrun, hne, Nat.add_comm]

theorem stopsAt_of_wordEnds {rest : Bytes} (h : wordEnds rest) : StopsAt isWordByte rest := by
  cases rest with
  | nil => exact Bytes.stopsAt_nil _
  | cons b rest => exact Bytes.stopsAt_cons rest (by simpa [wordEnds] using h)

theorem digit_of_wordEnds {rest : Bytes} (h : wordEnds rest) : StopsAt isDigit rest := by
  intro b hb
  have := stopsAt_of_wordEnds h b hb
  simp only [isWordByte, Bool.or_eq_false_iff] at this
  exact this.1.1.1

theorem exponent_append {text rest : Bytes} (h : IsExponent text) (hrest : wordEnds rest) :
    exponent (text ++ rest) = some text.length := by
  obtain ⟨hsign, hds, hlength⟩ := h
  rename_i sign ds
  have hne : ds ≠ [] := by
    rintro rfl
    cases hlength
  have hstop : StopsAt (· ∈ ([45] : Bytes)) (ds ++ rest) := digits_stop (by decide) hne hds rest
  have htail : (ds ++ rest).drop 2 = rest := List.drop_left' hlength
  rw [List.cons_append, List.append_assoc]
  simp only [exponent, optional_append hsign hstop, ← List.drop_drop, List.drop_left,
    digitRun_append hds (digit_of_wordEnds hrest), htail, hlength, hrest, and_self, if_true, List.length_cons,
    List.length_append]
  congr 1
  omega

theorem IsExponent.stops {p : UInt8 → Bool} (hp : p 101 = false) {text : Bytes} (h : IsExponent text) (rest : Bytes) :
    StopsAt p (text ++ rest) := by
  obtain ⟨-, -, -⟩ := h
  exact Bytes.stopsAt_cons _ hp

theorem IsFraction.stops {text s : Bytes} (h : IsFraction text) (hs : StopsAt isDigit s) :
    StopsAt isDigit (text ++ s) := by
  cases h with
  | absent => exact hs
  | present => exact Bytes.stopsAt_cons _ rfl

theorem floatLexeme_append {text rest : Bytes} (h : IsFloat text) (hrest : wordEnds rest) :
    floatLexeme (text ++ rest) = some text.length := by
  obtain ⟨⟨hsign, hne, hds⟩, hpoint, hpower⟩ := h
  rename_i point power sign ds
  have hstop : StopsAt (· ∈ ([45] : Bytes)) (ds ++ (point ++ (power ++ rest))) := digits_stop (by decide) hne hds _
  have hrun := digitRun_append hds (hpoint.stops (hpower.stops rfl rest))
  have hwhole : ds.length ≠ 0 := by simpa using hne
  simp only [List.append_assoc, floatLexeme, optional_append hsign hstop, ← List.drop_drop, List.drop_left, hrun,
    fraction_append hpoint (hpower.stops rfl rest), exponent_append hpower hrest, if_neg hwhole, Option.map_some,
    List.length_append]
  congr 1
  omega

theorem fits_float {text rest : Bytes} (h : IsFloat text) (hrest : wordEnds rest) :
    Fits ⟨some .float, text⟩ rest := by
  have hlen := floatLexeme_append h hrest
  obtain ⟨hnumber, hpoint, hpower⟩ := h
  rename_i number point power
  obtain ⟨b, s, hfirst, hblank, hnewline⟩ := (hnumber.mono (by simp)).first (point ++ (power ++ rest))
  refine ⟨?_, firstLexeme_of_split (lexemes.take 2) rfl ?_ hlen⟩
  · obtain ⟨-, -, -⟩ := hpower
    simp
  · simp only [lexemes, List.take_succ_cons, List.take_zero, List.forall_mem_cons, List.append_assoc, hfirst]
    exact ⟨blankRun_cons s hblank, literal_newline_cons s hnewline, by simp⟩

theorem isSign_minus (negative : Bool) : IsSign [45] (Timestep.Literal.minus negative) := by
  cases negative
  · exact .inl rfl
  · exact .inr ⟨45, by simp, rfl⟩

theorem isFloat_literal (l : Timestep.Literal) : IsFloat l.text := by
  have hpoint : IsFraction l.point := by
    rw [Timestep.Literal.point, Timestep.pointed]
    split
    · exact .absent
    · next hpart => exact .present hpart l.allDigits_part
  have hexponent := l.exponent_le
  have hpower : IsExponent (Timestep.exponentText l.exponent) := by
    rw [Timestep.exponentText_eq]
    exact .intro (isSign_minus _) (Bytes.allDigits_zeroPadded 2 _) (Bytes.length_zeroPadded_two (by omega))
  have hnumber := IsNumeral.intro (isSign_minus l.negative) l.whole_ne_nil l.allDigits_whole
  simpa [Timestep.Literal.text] using IsFloat.intro hnumber hpoint hpower

theorem fits_timestep {x : Binary64} (hx : x.isFinite) {rest : Bytes} (hrest : wordEnds rest) :
    Fits ⟨some .float, Timestep.text x⟩ rest := by
  obtain ⟨l, htext, -⟩ := Timestep.text_eq_literal hx
  rw [htext]
  exact fits_float (isFloat_literal l) hrest

theorem fits_repetition {ds rest : Bytes} (hne : ds ≠ []) (hds : AllDigits ds) (hrest : wordEnds rest) :
    Fits ⟨some .repetition, 120 :: ds⟩ rest := by
  refine ⟨by simp, ?_⟩
  have hrun := digitRun_append hds (digit_of_wordEnds hrest)
  have hrepetition : repetitionLexeme (120 :: (ds ++ rest)) = some (ds.length + 1) := by
    simp [repetitionLexeme, hrun, hne, hrest, Nat.add_comm]
  refine firstLexeme_of_split (lexemes.take 7) rfl ?_ hrepetition
  simp only [lexemes, List.take_succ_cons, List.take_zero, List.forall_mem_cons, List.cons_append]
  exact ⟨rfl, rfl, rfl, rfl, rfl, rfl, rfl, by simp⟩

theorem keywordLexeme_append {word rest : Bytes} (hword : word ∈ keywords) (hrest : wordEnds rest) :
    keywordLexeme (word ++ rest) = some word.length := by
  have hletters : ∀ w ∈ keywords, w.all isWordByte := List.all_eq_true.mp rfl
  have hrun := Bytes.takeWhile_append_stop (List.all_eq_true.mp (hletters word hword)) (stopsAt_of_wordEnds hrest)
  have hany : keywords.any (· = word) := by simpa using hword
  simp [keywordLexeme, hrun, hany]

theorem fits_keyword {word rest : Bytes} (hword : word ∈ keywords)
    (hearlier : (lexemes.take 8).findSome? (fun c => (c.2 (word ++ rest)).map (c.1, ·)) = none)
    (hrest : wordEnds rest) : Fits ⟨some .keyword, word⟩ rest := by
  refine ⟨fun h => ?_, ?_⟩
  · rw [show word = [] from h] at hword
    revert hword
    decide
  · refine firstLexeme_of_split (lexemes.take 8) rfl ?_ (keywordLexeme_append hword hrest)
    intro c hc
    have := List.findSome?_eq_none_iff.mp hearlier c hc
    simpa using this

theorem tiles_mem {s : Bytes} {t : Tile} (h : t ∈ (tiles s).1) :
    ∃ s' n, firstLexeme s' = some (t.kind, n) ∧ t.text = s'.take n := by
  induction s using tiles.induct with
  | case1 => simp [tiles] at h
  | case2 b rest hnone => simp [tiles, hnone] at h
  | case3 b rest kind n hsome ih =>
    rw [tiles, hsome] at h
    rcases List.mem_cons.mp h with rfl | h
    · exact ⟨b :: rest, n, hsome, rfl⟩
    · exact ih h

theorem place_mem {p : Position} {ts : List Tile} {t : Token} (h : t ∈ (place p ts).1) :
    ∃ u ∈ ts, u.kind = some t.kind ∧ u.text = t.text := by
  induction ts generalizing p with
  | nil => cases h
  | cons u ts ih =>
    rw [place] at h
    cases hk : u.kind with
    | none =>
      simp only [hk] at h
      obtain ⟨v, hv, hkind⟩ := ih h
      exact ⟨v, List.mem_cons_of_mem u hv, hkind⟩
    | some k =>
      simp only [hk] at h
      rcases List.mem_cons.mp h with rfl | h
      · exact ⟨u, List.mem_cons_self, hk, rfl⟩
      · obtain ⟨v, hv, hkind⟩ := ih h
        exact ⟨v, List.mem_cons_of_mem u hv, hkind⟩

theorem firstLexeme_class {s : Bytes} {kind : Option Kind} {n : Nat} (h : firstLexeme s = some (kind, n)) :
    ∃ c ∈ lexemes, c.1 = kind ∧ c.2 s = some n := by
  obtain ⟨c, hc, hsome⟩ := List.exists_of_findSome?_eq_some h
  obtain ⟨m, hm, heq⟩ := Option.map_eq_some_iff.mp hsome
  cases heq
  exact ⟨c, hc, rfl, hm⟩

theorem quoteText_of_stringLexeme {s : Bytes} {n : Nat} (h : stringLexeme s = some n) :
    ∃ inner, Quotable inner ∧ s.take n = quoteText inner := by
  cases s with
  | nil => cases h
  | cons b r =>
    simp only [stringLexeme] at h
    split at h
    · rename_i hq
      cases h
      have hsplit := List.takeWhile_append_dropWhile (p := fun c => c ≠ quote && c ≠ newline) (l := r)
      have hclean : Quotable (r.takeWhile (fun c => c ≠ quote && c ≠ newline)) := by
        intro c hc
        simpa using List.all_eq_true.mp List.all_takeWhile c hc
      generalize r.takeWhile (fun c => c ≠ quote && c ≠ newline) = inner at hq hsplit hclean ⊢
      generalize r.dropWhile (fun c => c ≠ quote && c ≠ newline) = tail at hsplit
      subst hsplit
      rw [List.drop_left] at hq
      obtain ⟨hb, hclose⟩ := hq
      obtain ⟨tail', rfl⟩ := List.head?_eq_some_iff.mp hclose
      have htake : (inner ++ quote :: tail').take (inner.length + 1) = inner ++ [quote] := by
        rw [List.take_append, List.take_of_length_le (Nat.le_succ _), Nat.add_sub_cancel_left]
        rfl
      refine ⟨inner, hclean, ?_⟩
      rw [List.take_succ_cons, htake, hb, quoteText, List.cons_append]
    · cases h

theorem lexemes_kinds :
    ∀ c ∈ lexemes, c.1 ≠ some .endOfInput ∧ (c.1 = some .string → c.2 = stringLexeme) := by
  simp [lexemes]

theorem kind_ne_of_tiles {s : Bytes} {t : Tile} (h : t ∈ (tiles s).1) : t.kind ≠ some .endOfInput := by
  obtain ⟨s', n, hfirst, -⟩ := tiles_mem h
  obtain ⟨c, hc, hclass, -⟩ := firstLexeme_class hfirst
  rw [← hclass]
  exact (lexemes_kinds c hc).1

theorem quoteText_of_tiles {s : Bytes} {t : Tile} (h : t ∈ (tiles s).1) (hkind : t.kind = some .string) :
    ∃ inner, Quotable inner ∧ t.text = quoteText inner := by
  obtain ⟨s', n, hfirst, htake⟩ := tiles_mem h
  obtain ⟨c, hc, hclass, hlen⟩ := firstLexeme_class hfirst
  rw [(lexemes_kinds c hc).2 (hclass.trans hkind)] at hlen
  rw [htake]
  exact quoteText_of_stringLexeme hlen

theorem unquoted_of_text {t : Token} {inner : Bytes} (h : t.text = quoteText inner) : Tree.unquoted t = inner := by
  simp [Tree.unquoted, h, quoteText]

theorem lex_eq_ok {file text : Bytes} {ts : List Token} : lex file text = .ok ts ↔
    (tiles text).2 = [] ∧ ts = (place (.start file) (tiles text).1).1 ++
      [⟨.endOfInput, [], (place (.start file) (tiles text).1).2⟩] := by
  simp only [lex]
  split
  · next hrest => exact ⟨fun h => ⟨hrest, (Except.ok.inj h).symm⟩, fun h => congrArg Except.ok h.2.symm⟩
  · next hrest => exact ⟨(nomatch ·), fun h => absurd h.1 hrest⟩

theorem lex_eq_error {file text : Bytes} {e : LexFault} : lex file text = .error e ↔
    (tiles text).2 ≠ [] ∧ e = ⟨(place (.start file) (tiles text).1).2, (tiles text).2⟩ := by
  simp only [lex]
  split
  · next hrest => exact ⟨(nomatch ·), fun h => absurd hrest h.1⟩
  · next hrest => exact ⟨fun h => ⟨hrest, (Except.error.inj h).symm⟩, fun h => congrArg Except.error h.2.symm⟩

theorem lex_ok {file text : Bytes} {ts : List Token} (h : lex file text = .ok ts) :
    ∃ u eof, ts = u ++ [eof] ∧ eof.kind = .endOfInput ∧
      ∀ t ∈ u, t.kind ≠ .endOfInput ∧ (t.kind = .string → Quotable (Tree.unquoted t)) := by
  obtain ⟨-, rfl⟩ := lex_eq_ok.mp h
  refine ⟨_, _, rfl, rfl, fun t ht => ?_⟩
  obtain ⟨u, hu, hkind, htext⟩ := place_mem ht
  refine ⟨fun hk => kind_ne_of_tiles hu (by rw [hkind, hk]), fun hk => ?_⟩
  obtain ⟨inner, hquotable, hinner⟩ := quoteText_of_tiles hu (by rw [hkind, hk])
  rwa [unquoted_of_text (htext.symm.trans hinner)]

end CircuitDesk.Token
