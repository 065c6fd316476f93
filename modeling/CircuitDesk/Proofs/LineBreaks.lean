import CircuitDesk.Proofs.Lossless
import CircuitDesk.Proofs.Spelling.Meaning

/-!
A newline separates. No class of lexemes looks across one: in front of a newline a text is cut as in front of the end of
the input, and behind it as from the start of a source, only further down.
-/
namespace CircuitDesk

def Position.below (front : Bytes) (p : Position) : Position :=
  { p with offset := front.length + 1 + p.offset, line := front.count Bytes.newline + 1 + p.line }

theorem Position.advance_below (front : Bytes) (p : Position) (s : Bytes) :
    (p.below front).advance s = (p.advance s).below front := by
  simp only [advance, below, Nat.add_assoc]

theorem Position.advance_newline (file front : Bytes) :
    (Position.behind file front).advance [Bytes.newline] = (Position.start file).below front := by
  have hline : [Bytes.newline].count Bytes.newline = 1 := by decide
  have hcolumn : ([Bytes.newline].reverse.takeWhile (· ≠ Bytes.newline)).reverse = [] := by decide
  simp only [advance, behind, below, start, List.mem_singleton, if_true, hline, hcolumn, List.length_singleton,
    Nat.add_zero, Nat.add_comm 1 (front.count Bytes.newline)]
  simp [Bytes.charCount, Bytes.glyphs]

namespace Token

open Bytes (isDigit newline quote)
open Tile (flat)

def below (front : Bytes) (t : Token) : Token := { t with pos := t.pos.below front }

variable {s : Bytes} (back : Bytes)

theorem takeWhile_before_newline {p : UInt8 → Bool} (hp : p newline = false) (s back : Bytes) :
    (s ++ newline :: back).takeWhile p = s.takeWhile p := by
  induction s with
  | nil => simp [hp]
  | cons b s ih => rw [List.cons_append, List.takeWhile_cons, List.takeWhile_cons, ih]

theorem digitRun_before_newline (s : Bytes) : digitRun (s ++ newline :: back) = digitRun s := by
  rw [digitRun, takeWhile_before_newline rfl, digitRun]

theorem optional_before_newline {bs : Bytes} (hbs : newline ∉ bs) (s : Bytes) :
    optional bs (s ++ newline :: back) = optional bs s := by
  cases s with
  | nil => exact if_neg hbs
  | cons b s => rfl

theorem optional_le (bs s : Bytes) : optional bs s ≤ s.length := by
  cases s with
  | nil => exact Nat.le_refl 0
  | cons b s =>
    rw [optional, List.length_cons]
    split <;> omega

theorem wordEnds_before_newline (s : Bytes) : wordEnds (s ++ newline :: back) = wordEnds s := by
  cases s <;> rfl

theorem drop_before_newline {n : Nat} (h : n ≤ s.length) :
    (s ++ newline :: back).drop n = s.drop n ++ newline :: back := List.drop_append_of_le_length h

theorem blankRun_before_newline (s : Bytes) : blankRun (s ++ newline :: back) = blankRun s := by
  rw [blankRun, takeWhile_before_newline rfl, blankRun]

theorem isPrefixOf_before_newline {w : Bytes} (hw : newline ∉ w) (s : Bytes) :
    w.isPrefixOf (s ++ newline :: back) = w.isPrefixOf s := by
  induction w generalizing s with
  | nil => rfl
  | cons c w ih =>
    obtain ⟨hc, hw⟩ := not_or.mp (mt List.mem_cons.mpr hw)
    cases s with
    | nil =>
      change (c == newline && _) = false
      simp [Ne.symm hc]
    | cons b s => rw [List.cons_append, List.isPrefixOf, List.isPrefixOf, ih hw]

theorem literal_before_newline {words : List Bytes} (hwords : ∀ w ∈ words, newline ∉ w) (s : Bytes) :
    literal words (s ++ newline :: back) = literal words s := by
  induction words with
  | nil => rfl
  | cons w words ih =>
    obtain ⟨hw, hwords⟩ := List.forall_mem_cons.mp hwords
    have hlater := ih hwords
    simp only [literal, List.find?_cons, isPrefixOf_before_newline back hw] at hlater ⊢
    cases w.isPrefixOf s with
    | true => rfl
    | false => exact hlater

theorem fraction_before_newline (s : Bytes) : fraction (s ++ newline :: back) = fraction s := by
  cases s with
  | nil => rfl
  | cons b s => rw [List.cons_append, fraction, fraction, digitRun_before_newline]

theorem fraction_le (s : Bytes) : fraction s ≤ s.length := by
  cases s with
  | nil => exact Nat.le_refl 0
  | cons b s =>
    have hrun := digitRun_le s
    rw [fraction, List.length_cons]
    split <;> omega

theorem exponent_before_newline (s : Bytes) : exponent (s ++ newline :: back) = exponent s := by
  cases s with
  | nil => rfl
  | cons b s =>
    have hsign := optional_le [45] s
    have hrun := digitRun_drop_le s (optional [45] s)
    simp only [List.cons_append, exponent, optional_before_newline back (show newline ∉ [45] by decide),
      drop_before_newline back hsign, digitRun_before_newline]
    -- the end of the word only counts where both digits of the exponent are there, in front of the newline
    by_cases htwo : digitRun (s.drop (optional [45] s)) = 2
    · rw [drop_before_newline back (by omega), wordEnds_before_newline]
    · simp [htwo]

theorem floatLexeme_before_newline (s : Bytes) : floatLexeme (s ++ newline :: back) = floatLexeme s := by
  have hsign := optional_le [45] s
  have hwhole := digitRun_drop_le s (optional [45] s)
  have hpart := fraction_le (s.drop (optional [45] s + digitRun (s.drop (optional [45] s))))
  rw [List.length_drop] at hpart
  have hends : optional [45] s + digitRun (s.drop (optional [45] s)) ≤ s.length := by omega
  simp only [floatLexeme, optional_before_newline back (show newline ∉ [45] by decide), drop_before_newline back hsign,
    digitRun_before_newline, drop_before_newline back hends, fraction_before_newline]
  rw [drop_before_newline back (by omega), exponent_before_newline]

theorem integerLexeme_before_newline (s : Bytes) : integerLexeme (s ++ newline :: back) = integerLexeme s := by
  simp only [integerLexeme, optional_before_newline back (show newline ∉ [45, 43] by decide),
    drop_before_newline back (optional_le [45, 43] s), digitRun_before_newline]

theorem stringLexeme_before_newline (s : Bytes) : stringLexeme (s ++ newline :: back) = stringLexeme s := by
  cases s with
  | nil => rfl
  | cons b s =>
    have hinner : (s.takeWhile fun c => c ≠ quote && c ≠ newline).length ≤ s.length :=
      (List.takeWhile_prefix _).length_le
    simp only [List.cons_append, stringLexeme]
    rw [takeWhile_before_newline (by rfl), drop_before_newline back hinner]
    cases s.drop (s.takeWhile fun c => c ≠ quote && c ≠ newline).length with
    | nil => simp [newline, quote]
    | cons c r => rfl

theorem repetitionLexeme_before_newline (s : Bytes) :
    repetitionLexeme (s ++ newline :: back) = repetitionLexeme s := by
  cases s with
  | nil => rfl
  | cons b s =>
    simp only [List.cons_append, repetitionLexeme, digitRun_before_newline, drop_before_newline back (digitRun_le s),
      wordEnds_before_newline]

theorem keywordLexeme_before_newline (s : Bytes) : keywordLexeme (s ++ newline :: back) = keywordLexeme s := by
  simp only [keywordLexeme]
  rw [takeWhile_before_newline rfl]

theorem lexemes_before_newline (hs : s ≠ []) : ∀ c ∈ lexemes, c.2 (s ++ newline :: back) = c.2 s := by
  obtain ⟨b, s, rfl⟩ := List.exists_cons_of_ne_nil hs
  simp only [lexemes, List.forall_mem_cons]
  refine ⟨blankRun_before_newline back _, rfl, floatLexeme_before_newline back _, integerLexeme_before_newline back _,
    stringLexeme_before_newline back _, literal_before_newline back (by decide) _,
    literal_before_newline back (by decide) _, repetitionLexeme_before_newline back _,
    keywordLexeme_before_newline back _, literal_before_newline back (by decide) _,
    literal_before_newline back (by decide) _, by simp⟩

theorem firstLexeme_before_newline (hs : s ≠ []) : firstLexeme (s ++ newline :: back) = firstLexeme s := by
  have hclasses := lexemes_before_newline back hs
  rw [firstLexeme, firstLexeme]
  generalize lexemes = cs at hclasses
  induction cs with
  | nil => rfl
  | cons c cs ih =>
    obtain ⟨hc, hcs⟩ := List.forall_mem_cons.mp hclasses
    simp only [List.findSome?_cons, hc, ih hcs]

theorem tiles_newline : tiles (newline :: back) = (⟨some .newline, [newline]⟩ :: (tiles back).1, (tiles back).2) :=
  tiles_of_fits (t := ⟨some .newline, [newline]⟩) (fits_fixed (by decide) back)

theorem tiles_before_newline (s : Bytes) :
    tiles (s ++ newline :: back) =
      if (tiles s).2 = [] then ((tiles s).1 ++ ⟨some .newline, [newline]⟩ :: (tiles back).1, (tiles back).2)
      else ((tiles s).1, (tiles s).2 ++ newline :: back) := by
  induction s using tiles.induct with
  | case1 =>
    rw [List.nil_append, tiles_newline]
    simp [tiles]
  | case2 b rest hnone =>
    have hwhole : firstLexeme (b :: (rest ++ newline :: back)) = none := by
      rw [← List.cons_append, firstLexeme_before_newline back (List.cons_ne_nil b rest), hnone]
    simp [tiles, hnone, hwhole]
  | case3 b rest kind n hsome ih =>
    have hwhole : firstLexeme (b :: (rest ++ newline :: back)) = some (kind, n) := by
      rw [← List.cons_append, firstLexeme_before_newline back (List.cons_ne_nil b rest), hsome]
    obtain ⟨hpos, hle⟩ := taken_firstLexeme hsome
    rw [List.length_cons] at hle
    have htake : (b :: (rest ++ newline :: back)).take n = (b :: rest).take n := by
      rw [← List.cons_append, List.take_append_of_le_length (by rw [List.length_cons]; exact hle)]
    have hdrop : (rest ++ newline :: back).drop (n - 1) = rest.drop (n - 1) ++ newline :: back :=
      drop_before_newline back (by omega)
    have hfront : tiles (b :: rest) =
        (⟨kind, (b :: rest).take n⟩ :: (tiles (rest.drop (n - 1))).1, (tiles (rest.drop (n - 1))).2) := by
      rw [tiles, hsome]
    rw [List.cons_append, tiles, hwhole, hfront]
    simp only [htake, hdrop, ih]
    split <;> rfl

theorem place_append_stop (p : Position) (ts us : List Tile) :
    (place p (ts ++ us)).2 = (place (place p ts).2 us).2 := by
  induction ts generalizing p with
  | nil => rfl
  | cons t ts ih => rw [List.cons_append, place_cons_stop, place_cons_stop, ih]

theorem place_below (front : Bytes) (p : Position) (ts : List Tile) :
    place (p.below front) ts = ((place p ts).1.map (below front), (place p ts).2.below front) := by
  induction ts generalizing p with
  | nil => rfl
  | cons t ts ih =>
    simp only [place, Position.advance_below, ih]
    cases t.kind <;> rfl

theorem place_lines (file : Bytes) {front : Bytes} (hfront : (tiles front).2 = []) (us : List Tile) :
    place (.start file) ((tiles front).1 ++ ⟨some .newline, [newline]⟩ :: us) =
      ((place (.start file) (tiles front).1).1 ++ ⟨.newline, [newline], .behind file front⟩ ::
        (place (.start file) us).1.map (below front), (place (.start file) us).2.below front) := by
  have hstop : (place (.start file) (tiles front).1).2 = .behind file front := by
    have hflat := flat_tiles front
    rw [hfront, List.append_nil] at hflat
    rw [← Position.behind_nil, place_stop (cut_tiles front), List.nil_append, hflat]
  refine Prod.ext ?_ ?_
  · rw [place_append, hstop, place_cons, Position.advance_newline, place_below]
  · rw [place_append_stop, hstop, place_cons_stop, Position.advance_newline, place_below]

/-- Lexing goes line by line: two texts with a newline between them are read if and only if each of them is, and then
to the same tokens, those of the second one further down. -/
theorem lex_lines (file front back : Bytes) :
    ((∃ ts, lex file (front ++ newline :: back) = .ok ts) ↔
        (∃ ts, lex file front = .ok ts) ∧ ∃ ts, lex file back = .ok ts) ∧
      lex file (front ++ newline :: back) = match lex file front, lex file back with
        | .ok ts, .ok us => .ok (ts.dropLast ++ ⟨.newline, [newline], .behind file front⟩ :: us.map (below front))
        | .error e, _ => .error ⟨e.pos, e.rest ++ newline :: back⟩
        | .ok _, .error e => .error ⟨e.pos.below front, e.rest⟩ := by
  have hlex : lex file (front ++ newline :: back) = match lex file front, lex file back with
      | .ok ts, .ok us => .ok (ts.dropLast ++ ⟨.newline, [newline], .behind file front⟩ :: us.map (below front))
      | .error e, _ => .error ⟨e.pos, e.rest ++ newline :: back⟩
      | .ok _, .error e => .error ⟨e.pos.below front, e.rest⟩ := by
    by_cases hfront : (tiles front).2 = []
    · have hplace := place_lines file hfront (tiles back).1
      by_cases hback : (tiles back).2 = []
      · simp only [lex, tiles_before_newline, hfront, hback, hplace, if_true]
        simp [below]
      · simp only [lex, tiles_before_newline, hfront, hplace, if_true, if_neg hback]
    · have hrest : (tiles front).2 ++ newline :: back ≠ [] := by simp
      simp only [lex, tiles_before_newline, if_neg hfront, if_neg hrest]
  refine ⟨?_, hlex⟩
  rw [hlex]
  cases lex file front <;> cases lex file back <;> simp

-- a string that is left open at the end of a line is not closed on the next one
example : (lex "f" "\"a\nb\"").toOption = none ∧ (lex "f" "\"ab\"").toOption.isSome := by decide +kernel

end Token

end CircuitDesk
