import Mathlib.Data.List.Forall2
import CircuitDesk.Proofs.Tiling
import CircuitDesk.Token.Pattern

/-!
What the lexer cuts off is what the first rule that matches would match. A rule that repeats digits or the letters of
a string has no use for fewer of them than there are, so its other ways lead nowhere.
-/
namespace CircuitDesk.Token

open Bytes (isDigit newline quote)

theorem drop_length_takeWhile {α : Type} (p : α → Bool) (s : List α) :
    s.drop (s.takeWhile p).length = s.dropWhile p := by
  have h : (s.takeWhile p ++ s.dropWhile p).drop (s.takeWhile p).length = s.dropWhile p := List.drop_left
  rwa [List.takeWhile_append_dropWhile] at h

theorem drop_digitRun (s : Bytes) : s.drop (digitRun s) = s.dropWhile isDigit := drop_length_takeWhile isDigit s

theorem drop_one_add_cons {α : Type} (a : α) (s : List α) (n : Nat) : (a :: s).drop (1 + n) = s.drop n := by
  rw [Nat.add_comm, List.drop_succ_cons]

theorem digitRun_cons (b : UInt8) (s : Bytes) : digitRun (b :: s) = if isDigit b then digitRun s + 1 else 0 := by
  rw [digitRun, List.takeWhile_cons]
  split <;> rfl

namespace Pattern

def rests (a : Pattern) (c : Cursor) : List Bytes := (a.ways c).map Cursor.rest

theorem length?_eq {a : Pattern} {s : Bytes} {len : Option Nat} (hle : ∀ n, len = some n → n ≤ s.length)
    (h : (a.rests ⟨none, s⟩).head? = len.map s.drop) : a.length? s = len := by
  have hlength : a.length? s = (a.rests ⟨none, s⟩).head?.map fun r => s.length - r.length := by
    rw [length?, rests, List.head?_map, Option.map_map]
    rfl
  rw [hlength, h]
  cases len with
  | none => rfl
  | some n =>
    have hn := hle n rfl
    simp only [Option.map_some, List.length_drop]
    congr 1
    omega

theorem rests_seq (a b : Pattern) (c : Cursor) : (seq a b).rests c = (a.ways c).flatMap b.rests := by
  rw [rests, ways, List.map_flatMap]
  rfl

theorem rests_seq_assoc (a b d : Pattern) (c : Cursor) : (seq (seq a b) d).rests c = (seq a (seq b d)).rests c := by
  have hlater : (seq b d).rests = fun c' => (b.ways c').flatMap d.rests := funext (rests_seq b d)
  rw [rests_seq, rests_seq, ways, List.flatMap_assoc, hlater]

theorem rests_maybe_seq (a b : Pattern) (c : Cursor) :
    (seq (maybe a) b).rests c = (seq a b).rests c ++ b.rests c := by
  rw [rests_seq, rests_seq, maybe, ways, ways, List.flatMap_append]
  simp

theorem ways_byte_nil (p : UInt8 → Bool) (before : Option UInt8) : (byte p).ways ⟨before, []⟩ = [] := rfl

theorem ways_byte_cons (p : UInt8 → Bool) (before : Option UInt8) (b : UInt8) (r : Bytes) :
    (byte p).ways ⟨before, b :: r⟩ = if p b then [⟨some b, r⟩] else [] := rfl

theorem rests_byte_seq_cons (p : UInt8 → Bool) (a : Pattern) (before : Option UInt8) (b : UInt8) (r : Bytes) :
    (seq (byte p) a).rests ⟨before, b :: r⟩ = if p b then a.rests ⟨some b, r⟩ else [] := by
  rw [rests_seq, ways_byte_cons]
  split <;> simp

theorem rests_byte_seq_nil (p : UInt8 → Bool) (a : Pattern) (before : Option UInt8) :
    (seq (byte p) a).rests ⟨before, []⟩ = [] := rfl

theorem head?_manyWays (p : UInt8 → Bool) (before : Option UInt8) (s : Bytes) :
    ((manyWays p before s).map Cursor.rest).head? = some (s.dropWhile p) := by
  induction s generalizing before with
  | nil => rfl
  | cons b r ih =>
    rw [manyWays, List.dropWhile_cons]
    split
    · rw [List.map_append, List.head?_append, ih]
      rfl
    · rfl

/-- Where what follows cannot start with a byte of the repetition, only the longest repetition leads on. -/
theorem manyWays_flatMap {α : Type} {p : UInt8 → Bool} {Q : Option UInt8 → Prop} {K : Cursor → List α}
    (hQ : ∀ b, p b → Q (some b)) (hK : ∀ before b r, Q before → p b → K ⟨before, b :: r⟩ = [])
    {before : Option UInt8} (hbefore : Q before) (s : Bytes) :
    ∃ last, Q last ∧ (manyWays p before s).flatMap K = K ⟨last, s.dropWhile p⟩ := by
  induction s generalizing before with
  | nil => exact ⟨before, hbefore, by simp [manyWays]⟩
  | cons b r ih =>
    rw [manyWays, List.dropWhile_cons]
    by_cases hb : p b
    · obtain ⟨last, hlast, h⟩ := ih (hQ b hb)
      refine ⟨last, hlast, ?_⟩
      rw [if_pos hb, if_pos hb, List.flatMap_append, h]
      simp [hK before b r hbefore hb]
    · refine ⟨before, hbefore, ?_⟩
      rw [if_neg hb, if_neg hb]
      simp

theorem rests_digits_seq {a : Pattern}
    (ha : ∀ d b r, isDigit d → isDigit b → a.rests ⟨some d, b :: r⟩ = []) (before : Option UInt8) (s : Bytes) :
    (digitRun s = 0 → (seq (oneOrMore isDigit) a).rests ⟨before, s⟩ = []) ∧
      (digitRun s ≠ 0 → ∃ d, isDigit d ∧
        (seq (oneOrMore isDigit) a).rests ⟨before, s⟩ = a.rests ⟨some d, s.drop (digitRun s)⟩) := by
  cases s with
  | nil => exact ⟨fun _ => rfl, fun h => absurd rfl h⟩
  | cons b r =>
    have hways : (seq (oneOrMore isDigit) a).rests ⟨before, b :: r⟩ =
        if isDigit b then (manyWays isDigit (some b) r).flatMap a.rests else [] := by
      rw [rests_seq, oneOrMore, ways, ways_byte_cons]
      split <;> simp [ways]
    rw [hways, drop_digitRun, digitRun_cons, List.dropWhile_cons]
    by_cases hb : isDigit b
    · rw [if_pos hb, if_pos hb, if_pos hb]
      refine ⟨fun h => absurd h (Nat.succ_ne_zero _), fun _ => ?_⟩
      have hQ : ∀ c, isDigit c → ∃ d, some c = some d ∧ isDigit d := fun c hc => ⟨c, rfl, hc⟩
      obtain ⟨last, ⟨d, rfl, hd⟩, h⟩ := manyWays_flatMap (Q := fun x => ∃ d, x = some d ∧ isDigit d) (K := a.rests) hQ
        (fun before c r' ⟨d, hbefore, hd⟩ hc => by rw [hbefore]; exact ha d c r' hd hc) (hQ b hb) r
      exact ⟨d, hd, h⟩
    · rw [if_neg hb, if_neg hb]
      exact ⟨fun _ => rfl, fun h => absurd rfl h⟩

theorem isWordByte_of_isDigit {b : UInt8} (h : isDigit b) : isWordByte b := by simp [isWordByte, h]

theorem rests_edge {d : UInt8} (hd : isWordByte d) (s : Bytes) :
    edge.rests ⟨some d, s⟩ = if wordEnds s then [s] else [] := by
  rw [rests, ways, Cursor.atEdge]
  cases s with
  | nil => simp [wordEnds, hd]
  | cons b r => by_cases hb : isWordByte b <;> simp [wordEnds, hd, hb]

theorem digitRun_of_wordEnds {s : Bytes} (h : wordEnds s) : digitRun s = 0 := by
  cases s with
  | nil => rfl
  | cons b r =>
    rw [digitRun_cons, if_neg]
    intro hb
    simp [wordEnds, isWordByte_of_isDigit hb] at h

theorem rests_twoDigits (before : Option UInt8) (s : Bytes) :
    (seq (byte isDigit) (seq (byte isDigit) edge)).rests ⟨before, s⟩ =
      if digitRun s = 2 ∧ wordEnds (s.drop 2) then [s.drop 2] else [] := by
  rcases s with _ | ⟨a, _ | ⟨b, r⟩⟩
  · rfl
  · rw [rests_byte_seq_cons, rests_byte_seq_nil, digitRun_cons]
    by_cases ha : isDigit a <;> simp [ha, digitRun]
  · rw [rests_byte_seq_cons, rests_byte_seq_cons, digitRun_cons, digitRun_cons]
    by_cases ha : isDigit a
    · by_cases hb : isDigit b
      · rw [rests_edge (isWordByte_of_isDigit hb)]
        by_cases hr : wordEnds r
        · simp [ha, hb, hr, digitRun_of_wordEnds hr]
        · simp [ha, hb, hr]
      · simp [ha, hb]
    · simp [ha]

theorem rests_maybe_oneOf_seq {a : Pattern} (bs : Bytes) (ha : ∀ before r, ∀ b ∈ bs, a.rests ⟨before, b :: r⟩ = [])
    (before : Option UInt8) (s : Bytes) :
    ∃ before', (seq (maybe (oneOf bs)) a).rests ⟨before, s⟩ = a.rests ⟨before', s.drop (optional bs s)⟩ := by
  rw [rests_maybe_seq]
  cases s with
  | nil => exact ⟨before, rfl⟩
  | cons b r =>
    rw [oneOf, rests_byte_seq_cons]
    by_cases hb : b ∈ bs
    · exact ⟨some b, by simp [optional, hb, ha before r b hb]⟩
    · exact ⟨before, by simp [optional, hb]⟩

theorem rests_byte_seq_of_not {p : UInt8 → Bool} {b : UInt8} (hb : ¬ p b) (a : Pattern) (before : Option UInt8)
    (r : Bytes) : (seq (byte p) a).rests ⟨before, b :: r⟩ = [] := by
  rw [rests_byte_seq_cons, if_neg hb]

theorem rests_exponentPart (before : Option UInt8) (s : Bytes) :
    exponentPart.rests ⟨before, s⟩ = (exponent s).toList.map s.drop := by
  cases s with
  | nil => rfl
  | cons b r =>
    rw [exponentPart, rests_byte_seq_cons]
    by_cases hb : b = 101
    · obtain ⟨before', h⟩ := rests_maybe_oneOf_seq
        (a := seq (byte isDigit) (seq (byte isDigit) edge)) [45]
        (fun before r b hb => rests_byte_seq_of_not (by rw [List.mem_singleton.mp hb]; decide) _ before r) (some b) r
      rw [if_pos (decide_eq_true hb), h, rests_twoDigits, List.drop_drop]
      simp only [exponent, hb, true_and]
      split
      · simp [Nat.add_assoc, drop_one_add_cons]
      · rfl
    · simp [exponent, hb]

theorem exponent_of_digit {b : UInt8} (hb : isDigit b) (r : Bytes) : exponent (b :: r) = none := by
  have h101 : b ≠ 101 := Bytes.isDigit_ne hb rfl
  simp [exponent, h101]

theorem fraction_of_digit {b : UInt8} (hb : isDigit b) (r : Bytes) : fraction (b :: r) = 0 := by
  have h46 : b ≠ 46 := Bytes.isDigit_ne hb rfl
  simp [fraction, h46]

theorem rests_mantissaEnd (before : Option UInt8) (s : Bytes) :
    (seq (maybe fractionPart) exponentPart).rests ⟨before, s⟩ =
      (exponent (s.drop (fraction s))).toList.map (s.drop (fraction s)).drop := by
  rw [rests_maybe_seq, rests_exponentPart, fractionPart, rests_seq_assoc]
  cases s with
  | nil => rfl
  | cons b r =>
    rw [rests_byte_seq_cons]
    by_cases hb : b = 46
    · obtain ⟨hzero, hrun⟩ := rests_digits_seq (a := exponentPart)
        (fun d b r _ hb => by rw [rests_exponentPart, exponent_of_digit hb]; rfl) (some b) r
      -- leaving the fraction out is no way, since no exponent starts with a point
      have hnone : exponent (b :: r) = none := by simp [exponent, hb]
      rw [if_pos (decide_eq_true hb), hnone]
      by_cases hdigits : digitRun r = 0
      · simp [hzero hdigits, fraction, hdigits, hnone]
      · obtain ⟨d, -, h⟩ := hrun hdigits
        rw [h, rests_exponentPart]
        simp [fraction, hb, hdigits, drop_one_add_cons]
    · simp [fraction, hb]

theorem rests_float (s : Bytes) : float.rests ⟨none, s⟩ = (floatLexeme s).toList.map s.drop := by
  obtain ⟨before, h⟩ := rests_maybe_oneOf_seq
    (a := seq (oneOrMore isDigit) (seq (maybe fractionPart) exponentPart)) [45]
    (fun before r b hb => by rw [List.mem_singleton.mp hb]; rfl) none s
  obtain ⟨hzero, hrun⟩ := rests_digits_seq (a := seq (maybe fractionPart) exponentPart)
    (fun d b r _ hb => by
      rw [rests_mantissaEnd, fraction_of_digit hb, List.drop_zero, exponent_of_digit hb]
      rfl) before (s.drop (optional [45] s))
  rw [float, h]
  simp only [floatLexeme]
  by_cases hdigits : digitRun (s.drop (optional [45] s)) = 0
  · rw [hzero hdigits, if_pos hdigits]
    rfl
  · obtain ⟨d, -, h'⟩ := hrun hdigits
    rw [h', rests_mantissaEnd, if_neg hdigits]
    simp only [List.drop_drop]
    cases exponent (s.drop (optional [45] s + digitRun (s.drop (optional [45] s)) +
      fraction (s.drop (optional [45] s + digitRun (s.drop (optional [45] s)))))) <;> rfl

theorem head?_oneOrMore (p : UInt8 → Bool) (before : Option UInt8) (s : Bytes) :
    ((oneOrMore p).rests ⟨before, s⟩).head? =
      if s.takeWhile p = [] then none else some (s.drop (s.takeWhile p).length) := by
  rw [drop_length_takeWhile, oneOrMore, rests_seq]
  cases s with
  | nil => rfl
  | cons b r =>
    rw [ways_byte_cons, List.takeWhile_cons, List.dropWhile_cons]
    by_cases hb : p b
    · simp only [hb, if_true, List.flatMap_singleton]
      rw [rests, ways, head?_manyWays]
      simp
    · simp [hb]

theorem head?_blanks (s : Bytes) : (blanks.rests ⟨none, s⟩).head? = (blankRun s).map s.drop := by
  rw [blanks, head?_oneOrMore]
  simp only [blankRun, List.length_eq_zero_iff]
  split <;> rfl

theorem head?_integer (s : Bytes) : (integer.rests ⟨none, s⟩).head? = (integerLexeme s).map s.drop := by
  obtain ⟨before, h⟩ := rests_maybe_oneOf_seq (a := oneOrMore isDigit) [45, 43]
    (fun before r b hb => by
      rw [oneOrMore]
      apply rests_byte_seq_of_not
      rcases List.mem_cons.mp hb with rfl | hb
      · decide
      · rw [List.mem_singleton.mp hb]
        decide) none s
  rw [integer, h, head?_oneOrMore]
  simp only [integerLexeme, digitRun, List.length_eq_zero_iff]
  split
  · rfl
  · rw [List.drop_drop]
    rfl

theorem rests_string (s : Bytes) : string.rests ⟨none, s⟩ = (stringLexeme s).toList.map s.drop := by
  cases s with
  | nil => rfl
  | cons b r =>
    rw [string, rests_byte_seq_cons]
    by_cases hb : b = quote
    · -- inside the string no byte is a quote, so it closes where the run of such bytes ends
      have hclose : ∀ before c r', True → (decide (c ≠ quote) && decide (c ≠ newline)) = true →
          (byte (· = quote)).rests ⟨before, c :: r'⟩ = [] := by
        intro before c r' _ hc
        have hc' : c ≠ quote := by simp at hc; exact hc.1
        simp [rests, ways_byte_cons, hc']
      obtain ⟨last, -, h⟩ := manyWays_flatMap (Q := fun _ => True) (K := (byte (· = quote)).rests) (fun _ _ => trivial)
        hclose trivial r
      rw [if_pos (decide_eq_true hb), rests_seq, ways, h, ← drop_length_takeWhile]
      simp only [stringLexeme, hb, true_and]
      generalize (r.takeWhile fun c => decide (c ≠ quote) && decide (c ≠ newline)).length = n
      cases hr : r.drop n with
      | nil => rfl
      | cons c r' =>
        have hrest : (quote :: r).drop (n + 2) = r' := by
          rw [List.drop_succ_cons, ← List.drop_drop, hr]
          rfl
        by_cases hc : c = quote
        · simp [rests, ways_byte_cons, hc, hrest]
        · simp [rests, ways_byte_cons, hc]
    · simp [stringLexeme, hb]

theorem ways_literally (w : Bytes) (before : Option UInt8) (s : Bytes) :
    (literally w).ways ⟨before, s⟩ =
      if w.isPrefixOf s then [⟨w.getLast?.or before, s.drop w.length⟩] else [] := by
  induction w generalizing before s with
  | nil => simp [literally, ways]
  | cons a w ih =>
    have hseq : (literally (a :: w)).ways ⟨before, s⟩ =
        ((byte (· = a)).ways ⟨before, s⟩).flatMap (literally w).ways := rfl
    rw [hseq]
    cases s with
    | nil => rfl
    | cons b r =>
      rw [ways_byte_cons]
      by_cases hb : b = a
      · rw [if_pos (decide_eq_true hb), List.flatMap_singleton, ih]
        have hlast : (a :: w).getLast?.or before = w.getLast?.or (some b) := by
          rw [hb, List.getLast?_cons]
          cases w.getLast? <;> rfl
        simp [hb, hlast]
      · simp [hb, Ne.symm hb]

theorem ways_anyOf (ws : List Bytes) (before : Option UInt8) (s : Bytes) :
    (anyOf ws).ways ⟨before, s⟩ =
      (ws.filter (·.isPrefixOf s)).map fun w => ⟨w.getLast?.or before, s.drop w.length⟩ := by
  induction ws with
  | nil => cases s <;> rfl
  | cons w ws ih =>
    rw [anyOf, ways, ih, ways_literally, List.filter_cons]
    split <;> rfl

theorem head?_literal {a : Pattern} {words : List Bytes} {s : Bytes}
    (h : a.rests ⟨none, s⟩ = (words.filter (·.isPrefixOf s)).map fun w => s.drop w.length) :
    (a.rests ⟨none, s⟩).head? = (literal words s).map s.drop := by
  rw [h, List.head?_map, List.head?_filter, literal, Option.map_map]
  rfl

theorem head?_literally (w : Bytes) (s : Bytes) :
    ((literally w).rests ⟨none, s⟩).head? = (literal [w] s).map s.drop := by
  rw [rests, ways_literally, literal, List.find?_singleton]
  split <;> rfl

theorem rests_anyOf_byte (ws : List Bytes) (a : UInt8) (s : Bytes) :
    (seq (anyOf ws) (byte (· = a))).rests ⟨none, s⟩ =
      ((ws.map (· ++ [a])).filter (·.isPrefixOf s)).map fun w => s.drop w.length := by
  rw [rests_seq, ways_anyOf, List.flatMap_map, List.filter_map, List.map_map]
  induction ws with
  | nil => rfl
  | cons w ws ih =>
    have hsplit : (w ++ [a]).isPrefixOf s = (w.isPrefixOf s && decide ((s.drop w.length).head? = some a)) := by
      rw [Bool.eq_iff_iff]
      simp only [List.isPrefixOf_iff_prefix, Bool.and_eq_true, decide_eq_true_eq]
      constructor
      · rintro ⟨t, rfl⟩
        simp
      · rintro ⟨⟨t, rfl⟩, ht⟩
        rw [List.drop_left] at ht
        obtain ⟨t', rfl⟩ := List.head?_eq_some_iff.mp ht
        exact ⟨t', by simp⟩
    rw [List.filter_cons, List.filter_cons, Function.comp_apply, hsplit]
    by_cases hw : w.isPrefixOf s
    · rw [if_pos hw, List.flatMap_cons, ih, hw, Bool.true_and]
      cases hr : s.drop w.length with
      | nil => simp [rests, ways_byte_nil]
      | cons b r =>
        by_cases hb : b = a
        · have hrest : s.drop (w.length + 1) = r := by rw [← List.drop_drop, hr]; rfl
          simp [rests, ways_byte_cons, hb, hrest]
        · simp [rests, ways_byte_cons, hb]
    · rw [if_neg hw, ih]
      simp [hw]

theorem literal_singles (bs : Bytes) (s : Bytes) :
    literal (bs.map fun b => [b]) s = match s with
      | [] => none
      | c :: _ => if c ∈ bs then some 1 else none := by
  induction bs with
  | nil => cases s <;> rfl
  | cons b bs ih =>
    rw [literal] at ih ⊢
    rw [List.map_cons, List.find?_cons]
    cases s with
    | nil => exact ih
    | cons c r =>
      by_cases hc : b = c
      · simp [hc, List.isPrefixOf]
      · have hnot : [b].isPrefixOf (c :: r) = false := by simp [List.isPrefixOf, hc]
        rw [hnot, ih]
        simp [Ne.symm hc]

theorem head?_oneOf (bs : Bytes) (s : Bytes) :
    ((oneOf bs).rests ⟨none, s⟩).head? = (literal (bs.map fun b => [b]) s).map s.drop := by
  rw [literal_singles]
  cases s with
  | nil => rfl
  | cons c r =>
    rw [oneOf, rests, ways_byte_cons]
    by_cases hc : c ∈ bs <;> simp [hc]

theorem rests_repetition (s : Bytes) : repetition.rests ⟨none, s⟩ = (repetitionLexeme s).toList.map s.drop := by
  cases s with
  | nil => rfl
  | cons b r =>
    rw [repetition, rests_byte_seq_cons]
    obtain ⟨hzero, hrun⟩ := rests_digits_seq (a := edge)
      (fun d b r hd hb => by
        rw [rests_edge (isWordByte_of_isDigit hd)]
        simp [wordEnds, isWordByte_of_isDigit hb]) (some b) r
    by_cases hb : b = 120
    · rw [if_pos (decide_eq_true hb)]
      by_cases hdigits : digitRun r = 0
      · simp [hzero hdigits, repetitionLexeme, hdigits]
      · obtain ⟨d, hd, h⟩ := hrun hdigits
        rw [h, rests_edge (isWordByte_of_isDigit hd)]
        by_cases hends : wordEnds (r.drop (digitRun r))
        · simp [repetitionLexeme, hb, hdigits, hends, drop_one_add_cons]
        · simp [repetitionLexeme, hends]
    · simp [repetitionLexeme, hb]

theorem wordEnds_dropWhile (s : Bytes) : wordEnds (s.dropWhile isWordByte) := by
  have hstop := List.head?_dropWhile_not isWordByte s
  cases h : s.dropWhile isWordByte with
  | nil => rfl
  | cons b r =>
    rw [h] at hstop
    simpa [wordEnds] using hstop

theorem takeWhile_word_iff {w : Bytes} (hw : ∀ b ∈ w, isWordByte b) (s : Bytes) :
    w.isPrefixOf s ∧ wordEnds (s.drop w.length) ↔ s.takeWhile isWordByte = w := by
  constructor
  · rintro ⟨hstart, hends⟩
    obtain ⟨t, rfl⟩ := List.isPrefixOf_iff_prefix.mp hstart
    rw [List.drop_left] at hends
    apply Bytes.takeWhile_append_stop hw
    intro b hb
    obtain ⟨t', rfl⟩ := List.head?_eq_some_iff.mp hb
    simpa [wordEnds] using hends
  · rintro rfl
    refine ⟨List.isPrefixOf_iff_prefix.mpr (List.takeWhile_prefix _), ?_⟩
    rw [drop_length_takeWhile]
    exact wordEnds_dropWhile s

theorem rests_anyOf_edge {ws : List Bytes} (hws : ∀ w ∈ ws, w ≠ [] ∧ ∀ b ∈ w, isWordByte b) (s : Bytes) :
    (seq (anyOf ws) edge).rests ⟨none, s⟩ =
      (ws.filter fun w => s.takeWhile isWordByte = w).map fun w => s.drop w.length := by
  rw [rests_seq, ways_anyOf, List.flatMap_map]
  induction ws with
  | nil => rfl
  | cons w ws ih =>
    obtain ⟨⟨hne, hword⟩, hws⟩ := List.forall_mem_cons.mp hws
    have hiff := takeWhile_word_iff hword s
    have hlast : edge.rests ⟨w.getLast?.or none, s.drop w.length⟩ =
        if wordEnds (s.drop w.length) then [s.drop w.length] else [] := by
      rw [List.getLast?_eq_some_getLast hne]
      exact rests_edge (hword _ (List.getLast_mem hne)) _
    rw [List.filter_cons, List.filter_cons]
    by_cases hw : w.isPrefixOf s
    · rw [if_pos hw, List.flatMap_cons, hlast, ih hws]
      by_cases hends : wordEnds (s.drop w.length)
      · rw [if_pos hends, if_pos (decide_eq_true (hiff.mp ⟨hw, hends⟩))]
        rfl
      · have hnot : s.takeWhile isWordByte ≠ w := fun h => hends (hiff.mpr h).2
        rw [if_neg hends, if_neg (by simpa using hnot)]
        rfl
    · have hnot : s.takeWhile isWordByte ≠ w := fun h => hw (hiff.mpr h).1
      rw [if_neg hw, ih hws, if_neg (by simpa using hnot)]

theorem find?_eq_self (ws : List Bytes) (word : Bytes) :
    ws.find? (fun w => word = w) = if ws.any (· = word) then some word else none := by
  induction ws with
  | nil => rfl
  | cons w ws ih =>
    rw [List.find?_cons, List.any_cons, ih]
    by_cases hw : word = w
    · simp [hw]
    · simp [hw, Ne.symm hw]

theorem head?_keyword (s : Bytes) : (keyword.rests ⟨none, s⟩).head? = (keywordLexeme s).map s.drop := by
  have hwords : ∀ w ∈ keywords, w ≠ [] ∧ ∀ b ∈ w, isWordByte b := by
    have hnonempty : [] ∉ keywords := by decide
    have hletters : ∀ w ∈ keywords, w.all isWordByte := List.all_eq_true.mp rfl
    exact fun w hw => ⟨fun h => hnonempty (h ▸ hw), List.all_eq_true.mp (hletters w hw)⟩
  have hstart : keyword.rests ⟨none, s⟩ =
      if s.head?.any isWordByte then (seq (anyOf keywords) edge).rests ⟨none, s⟩ else [] := by
    rw [keyword, rests_seq, ways, Cursor.atEdge]
    cases s.head?.any isWordByte <;> simp
  have hlexeme : (keywordLexeme s).map s.drop =
      (keywords.find? fun w => s.takeWhile isWordByte = w).map fun w => s.drop w.length := by
    rw [find?_eq_self, keywordLexeme]
    split <;> rfl
  rw [hstart, rests_anyOf_edge hwords, hlexeme]
  by_cases hhead : s.head?.any isWordByte
  · rw [if_pos hhead, List.head?_map, List.head?_filter]
  · -- without a word at the start there is no keyword, which the edge in front of the words says as well
    have hnil : s.takeWhile isWordByte = [] := by
      cases s with
      | nil => rfl
      | cons b r =>
        have hb : isWordByte b = false := by simpa using hhead
        rw [List.takeWhile_cons, hb]
        rfl
    rw [if_neg hhead, hnil]
    rfl

theorem rules_agree :
    List.Forall₂ (fun c r => c.1 = r.1 ∧ ∀ s, r.2.length? s = c.2 s) lexemes patterns := by
  have hle : ∀ c ∈ lexemes, ∀ s n, c.2 s = some n → n ≤ s.length := fun c hc s n h => (taken_of_lexeme c hc h).2
  simp only [lexemes, List.forall_mem_cons] at hle
  obtain ⟨hblank, hnewline, hfloat, hinteger, hstring, hopener, hheader, hrepetition, hkeyword, harrow,
    hpunctuation, -⟩ := hle
  have unique {a : Pattern} {len : Bytes → Option Nat} (h : ∀ s, a.rests ⟨none, s⟩ = (len s).toList.map s.drop)
      (s : Bytes) : (a.rests ⟨none, s⟩).head? = (len s).map s.drop := by
    rw [h]
    cases len s <;> rfl
  refine .cons ⟨rfl, fun s => length?_eq (hblank s) (head?_blanks s)⟩ ?_
  refine .cons ⟨rfl, fun s => length?_eq (hnewline s) (head?_literally _ s)⟩ ?_
  refine .cons ⟨rfl, fun s => length?_eq (hfloat s) (unique rests_float s)⟩ ?_
  refine .cons ⟨rfl, fun s => length?_eq (hinteger s) (head?_integer s)⟩ ?_
  refine .cons ⟨rfl, fun s => length?_eq (hstring s) (unique rests_string s)⟩ ?_
  refine .cons ⟨rfl, fun s => length?_eq (hopener s) (head?_literal (rests_anyOf_byte _ _ s))⟩ ?_
  refine .cons ⟨rfl, fun s => length?_eq (hheader s) (head?_literal (rests_anyOf_byte _ _ s))⟩ ?_
  refine .cons ⟨rfl, fun s => length?_eq (hrepetition s) (unique rests_repetition s)⟩ ?_
  refine .cons ⟨rfl, fun s => length?_eq (hkeyword s) (head?_keyword s)⟩ ?_
  refine .cons ⟨rfl, fun s => length?_eq (harrow s) (head?_literally _ s)⟩ ?_
  exact .cons ⟨rfl, fun s => length?_eq (hpunctuation s) (head?_oneOf _ s)⟩ .nil

end Pattern

theorem findSome?_of_agree {cs : List (Option Kind × (Bytes → Option Nat))} {rs : List (Option Kind × Pattern)}
    (h : List.Forall₂ (fun c r => c.1 = r.1 ∧ ∀ s, r.2.length? s = c.2 s) cs rs) (s : Bytes) :
    cs.findSome? (fun (kind, len) => (len s).map (kind, ·)) =
      rs.findSome? fun (kind, p) => (p.length? s).map (kind, ·) := by
  induction h with
  | nil => rfl
  | @cons c r _ _ h _ ih =>
    obtain ⟨kind, len⟩ := c
    obtain ⟨kind', p⟩ := r
    obtain ⟨rfl, hlength⟩ := h
    simp only [List.findSome?_cons, ih, hlength]

theorem firstLexeme_eq_firstMatch (s : Bytes) : firstLexeme s = firstMatch s :=
  findSome?_of_agree Pattern.rules_agree s

end CircuitDesk.Token
