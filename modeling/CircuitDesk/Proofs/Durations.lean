import CircuitDesk.Duration
import CircuitDesk.Proofs.Numerals
import CircuitDesk.Proofs.Rounding

/-!
Durations read back from their text. A fraction is computed in floating point, but the fractions that are written have
at most nine digits, and for these the computation is exact.
-/
namespace CircuitDesk

namespace Binary64

theorem fraction_normal (e : Nat) {f : Nat} (hf : f < fractionBound) :
    fraction ((e + 1) * fractionBound + f) = ((fractionBound + f) * 2 ^ e, denominator) := by
  have hquotient : ((e + 1) * fractionBound + f) / fractionBound = e + 1 := by
    rw [Nat.add_comm, Nat.add_mul_div_right _ _ fractionBound_pos, Nat.div_eq_of_lt hf, Nat.zero_add]
  have hmod : ((e + 1) * fractionBound + f) % fractionBound = f := by
    rw [Nat.add_comm, Nat.add_mul_mod_self_right, Nat.mod_eq_of_lt hf]
  have hnormal : ¬ (e + 1) * fractionBound + f < fractionBound := by
    have hmul : fractionBound ≤ (e + 1) * fractionBound := Nat.le_mul_of_pos_left _ (Nat.succ_pos _)
    omega
  simp only [fraction, scale, significand, if_neg hnormal, hquotient, hmod, Nat.add_sub_cancel, twoPower_eq]

theorem exists_full_width {k : Nat} (hzero : k ≠ 0) (hk : k < 2 * fractionBound) :
    ∃ j f, j ≤ 52 ∧ f < fractionBound ∧ k * 2 ^ j = fractionBound + f := by
  have hbits : 2 ^ (bitLength k - 1) ≤ k := two_pow_le_of_ne_zero hzero
  have hlt : k < 2 ^ bitLength k := lt_two_pow_bitLength k
  have hlength : 1 ≤ bitLength k := lt_bitLength_of_le (k := 0) (by omega)
  have hle : bitLength k - 1 < 53 := by
    apply (Nat.pow_lt_pow_iff_right (show 1 < 2 by omega)).mp
    exact Nat.lt_of_le_of_lt hbits hk
  obtain ⟨j, hj⟩ : ∃ j, bitLength k + j = 53 := ⟨53 - bitLength k, by omega⟩
  have hlow : fractionBound ≤ k * 2 ^ j := by
    calc fractionBound = 2 ^ (bitLength k - 1) * 2 ^ j := by
          rw [← Nat.pow_add, show bitLength k - 1 + j = 52 by omega]
          rfl
      _ ≤ k * 2 ^ j := Nat.mul_le_mul_right _ hbits
  have hhigh : k * 2 ^ j < fractionBound + fractionBound := by
    calc k * 2 ^ j < 2 ^ bitLength k * 2 ^ j := Nat.mul_lt_mul_of_pos_right hlt (Nat.pow_pos (by omega))
      _ = 2 ^ 53 := by rw [← Nat.pow_add, hj]
      _ = fractionBound + fractionBound := rfl
  exact ⟨j, k * 2 ^ j - fractionBound, by omega, by omega, by omega⟩

theorem exists_fraction_eq {k : Nat} (hk : k < 2 * fractionBound) : ∃ m, (fraction m).1 = k * denominator := by
  by_cases hzero : k = 0
  · exact ⟨0, by simp [hzero, fraction, significand, fractionBound]⟩
  · obtain ⟨j, f, hj, hf, hwide⟩ := exists_full_width hzero hk
    -- the scale moves the significand back
    have hback : j + (1074 - j) = 1074 := by omega
    refine ⟨(1074 - j + 1) * fractionBound + f, ?_⟩
    rw [fraction_normal _ hf, ← hwide, Nat.mul_assoc, ← Nat.pow_add]
    exact congrArg (fun e => k * twoPower e) hback

theorem fraction_nearest {num den k : Nat} (hden : 0 < den) (h : num = k * den) (hk : k < 2 * fractionBound) :
    fraction (nearest num den) = (k * denominator, denominator) := by
  obtain ⟨m, hm⟩ := exists_fraction_eq hk
  have hnearest : nearest num den = m := by
    have hsame : num * denominator = k * denominator * den := by
      rw [h]
      exact Nat.mul_right_comm ..
    rw [nearest_congr hden denominator_pos hsame, ← hm, nearest_fraction]
  rw [hnearest]
  exact Prod.ext hm rfl

end Binary64

namespace Duration

open Bytes (AllDigits StopsAt isDigit natValue stopsAt_cons stopsAt_nil)
open Decimal (tenPower)

theorem fractionNanoseconds_exact {n scale unit t : Nat} (hscale : 0 < scale) (hunit : unit = t * scale)
    (ht : 0 < t) (hn : n * t < 2 * Binary64.fractionBound) (hsmall : t < 2 * Binary64.fractionBound) :
    fractionNanoseconds n scale unit = n * t := by
  have hle : n ≤ n * t := Nat.le_mul_of_pos_right n ht
  have ha := Binary64.fraction_nearest Nat.one_pos (Nat.mul_one n).symm (show n < 2 * Binary64.fractionBound by omega)
  have hb := Binary64.fraction_nearest hscale hunit hsmall
  have hc := Binary64.fraction_nearest (Nat.mul_pos Binary64.denominator_pos Binary64.denominator_pos)
    (Nat.mul_mul_mul_comm n Binary64.denominator t Binary64.denominator) hn
  simp only [fractionNanoseconds, ha, hb, hc]
  exact Nat.mul_div_cancel _ Binary64.denominator_pos

theorem takeFraction_all {ds : Bytes} (hds : AllDigits ds) {n : Nat} (h : (n + 1) * 10 ^ ds.length ≤ 10 ^ 17)
    (scale : Nat) : takeFraction n scale ds = (n * 10 ^ ds.length + natValue ds, scale * 10 ^ ds.length) := by
  induction ds generalizing n scale with
  | nil => simp [takeFraction, natValue]
  | cons d ds ih =>
    obtain ⟨hd, hds⟩ := List.forall_mem_cons.mp hds
    have hvalue : Bytes.digitValue d ≤ 9 := by
      have hdigit := (Bytes.isDigit_iff d).mp hd
      rw [Bytes.digitValue]
      omega
    have hstep : (10 * n + Bytes.digitValue d + 1) * 10 ^ ds.length ≤ (n + 1) * 10 ^ (d :: ds).length := by
      rw [List.length_cons, Nat.pow_succ, Nat.mul_comm (10 ^ ds.length) 10, ← Nat.mul_assoc]
      exact Nat.mul_le_mul_right _ (by omega)
    have hn : n + 1 ≤ 10 ^ 17 := Nat.le_trans (Nat.le_mul_of_pos_right _ (Nat.pow_pos (by omega))) h
    have hfits : n ≤ (limit - 1) / 10 ∧ 10 * n + Bytes.digitValue d ≤ limit := by
      simp only [limit, Integer64.bound]
      omega
    have hdigits : natValue (d :: ds) = Bytes.digitValue d * 10 ^ ds.length + natValue ds :=
      Bytes.natValue_append [d] ds ▸ by simp [natValue]
    simp only [takeFraction, if_pos hfits]
    rw [ih hds (Nat.le_trans hstep h), hdigits, List.length_cons, Nat.pow_succ]
    refine Prod.ext ?_ ?_
    · simp only [Nat.add_mul]
      rw [Nat.mul_comm 10 n, Nat.mul_assoc n, Nat.mul_comm 10, Nat.add_assoc]
    · simp only
      rw [Nat.mul_comm 10 scale, Nat.mul_assoc, Nat.mul_comm 10]

/-- The nanoseconds of a term whose fraction comes out whole: `t` is what the last digit of the fraction is worth. -/
theorem termValue_eq {whole part unit : Bytes} {u t : Nat} (hne : whole ≠ []) (hpart : AllDigits part)
    (hlength : part.length ≤ 9) (hne' : unit ≠ []) (hunit : units.lookup unit = some u)
    (hu : u = t * 10 ^ part.length) (ht : 0 < t) (hsmall : t < 2 * Binary64.fractionBound)
    (hproduct : natValue part * t < 2 * Binary64.fractionBound)
    (hle : natValue whole * u + natValue part * t ≤ limit) :
    termValue whole part unit = .ok (natValue whole * u + natValue part * t) := by
  have hpower : (0 : Nat) < 10 ^ part.length := Nat.pow_pos (by omega)
  have hupos : 0 < u := by
    rw [hu]
    exact Nat.mul_pos ht hpower
  have hwhole : natValue whole ≤ limit := by
    have hmul := Nat.le_mul_of_pos_right (natValue whole) hupos
    omega
  have hquotient : ¬ limit / u < natValue whole := by
    rw [Nat.not_lt, Nat.le_div_iff_mul_le hupos]
    omega
  have htake : takeFraction 0 1 part = (natValue part, 10 ^ part.length) := by
    have hpow := Nat.pow_le_pow_right (show 0 < 10 by omega) (show part.length ≤ 17 by omega)
    rw [takeFraction_all hpart (by omega)]
    simp
  have hfraction : (if natValue part = 0 then 0 else fractionNanoseconds (natValue part) (10 ^ part.length) u) =
      natValue part * t := by
    split
    · next hzero => rw [hzero, Nat.zero_mul]
    · exact fractionNanoseconds_exact hpower hu ht hproduct hsmall
  simp only [termValue, hunit, htake, hfraction]
  have hfits : ¬ (limit / u < natValue whole ∨ limit < natValue whole * u + natValue part * t) := fun h =>
    h.elim hquotient (by omega)
  rw [if_neg (Nat.not_lt.mpr hwhole), if_neg (fun h => hne h.1), if_neg hne', if_neg hfits]

def pointed (part : Bytes) : Bytes := if part = [] then [] else 46 :: part

theorem isNumberByte_of_isDigit {b : UInt8} (h : isDigit b) : isNumberByte b := by
  rw [isNumberByte, h, Bool.or_true]

theorem splitNumber_append {whole part later : Bytes} (hwhole : AllDigits whole) (hpart : AllDigits part)
    (hne : later ≠ []) (hlater : StopsAt isNumberByte later) :
    splitNumber (whole ++ (pointed part ++ later)) = (whole, part, later) := by
  obtain ⟨b, later, rfl⟩ := List.exists_cons_of_ne_nil hne
  have hb := hlater b rfl
  simp only [isNumberByte, Bool.or_eq_false_iff, decide_eq_false_iff_not] at hb
  have hstop : StopsAt isDigit (b :: later) := stopsAt_cons later hb.2
  by_cases hnone : part = []
  · subst hnone
    have hdrop := Bytes.dropWhile_append_stop hwhole hstop
    have htake := Bytes.takeWhile_append_stop hwhole hstop
    simp only [pointed, if_true, List.nil_append, splitNumber, hdrop, htake, if_neg hb.1]
  · have hpoint : StopsAt isDigit (46 :: (part ++ b :: later)) := stopsAt_cons _ rfl
    have hdrop := Bytes.dropWhile_append_stop hwhole hpoint
    have htake := Bytes.takeWhile_append_stop hwhole hpoint
    have hdrop' := Bytes.dropWhile_append_stop hpart hstop
    have htake' := Bytes.takeWhile_append_stop hpart hstop
    simp only [pointed, if_neg hnone, List.cons_append, splitNumber, hdrop, htake, hdrop', htake', if_true]

theorem sumTerms_number {total : Nat} {s whole part later : Bytes} (hs : ∀ b ∈ s.head?, isNumberByte b) (hne : s ≠ [])
    (hsplit : splitNumber s = (whole, part, later)) {n : Nat} (hterm : termValue whole part (unitOf later) = .ok n)
    (hle : total + n ≤ limit) : sumTerms total s = sumTerms (total + n) (later.drop (unitOf later).length) := by
  obtain ⟨b, rest, rfl⟩ := List.exists_cons_of_ne_nil hne
  rw [sumTerms, if_pos (hs b rfl)]
  split
  next whole' part' later' hsplit' =>
    rw [hsplit] at hsplit'
    cases hsplit'
    split
    next e he =>
      rw [hterm] at he
      cases he
    next m hm =>
      rw [hterm] at hm
      cases hm
      exact if_neg (Nat.not_lt.mpr hle)

theorem sumTerms_append {total n : Nat} {whole part unit rest : Bytes} (hwhole : AllDigits whole) (hne : whole ≠ [])
    (hpart : AllDigits part) (hunit : ∀ b ∈ unit, !isNumberByte b) (hrest : StopsAt (!isNumberByte ·) rest)
    (hterm : termValue whole part unit = .ok n) (hle : total + n ≤ limit) :
    sumTerms total (whole ++ (pointed part ++ (unit ++ rest))) = sumTerms (total + n) rest := by
  have hsome : unit ≠ [] := unit_ne_nil_of_termValue hterm
  have hlater : StopsAt isNumberByte (unit ++ rest) := by
    obtain ⟨b, unit, rfl⟩ := List.exists_cons_of_ne_nil hsome
    exact stopsAt_cons _ (by simpa using hunit b List.mem_cons_self)
  have hsplit := splitNumber_append hwhole hpart (List.append_ne_nil_of_left_ne_nil hsome rest) hlater
  have hunitOf : unitOf (unit ++ rest) = unit := Bytes.takeWhile_append_stop hunit hrest
  obtain ⟨d, ds, rfl⟩ := List.exists_cons_of_ne_nil hne
  have hstart : ∀ b ∈ (d :: ds ++ (pointed part ++ (unit ++ rest))).head?, isNumberByte b := by
    rintro _ ⟨⟩
    exact isNumberByte_of_isDigit (hwhole d List.mem_cons_self)
  rw [sumTerms_number hstart (by simp) hsplit (by rwa [hunitOf]) hle, hunitOf, List.drop_left]

def stripped (s : Bytes) : Bytes := (s.reverse.dropWhile (· = 48)).reverse

theorem stripped_append (s : Bytes) : s = stripped s ++ List.replicate (s.length - (stripped s).length) 48 := by
  have hzeros : ∀ b ∈ s.reverse.takeWhile (· = 48), b = 48 := fun b hb =>
    of_decide_eq_true (List.all_eq_true.mp List.all_takeWhile b hb)
  have hsplit : stripped s ++ (s.reverse.takeWhile (· = 48)).reverse = s := by
    rw [stripped, ← List.reverse_append, List.takeWhile_append_dropWhile, List.reverse_reverse]
  have hlength := congrArg List.length hsplit
  rw [List.length_append, List.length_reverse] at hlength
  have hreplicate : (s.reverse.takeWhile (· = 48)).reverse = List.replicate (s.length - (stripped s).length) 48 := by
    rw [List.eq_replicate_iff, List.length_reverse]
    exact ⟨by omega, fun b hb => hzeros b (List.mem_reverse.mp hb)⟩
  rw [← hreplicate, hsplit]

theorem allDigits_stripped {s : Bytes} (hs : AllDigits s) : AllDigits (stripped s) := by
  intro b hb
  apply hs b
  rw [stripped_append s]
  exact List.mem_append_left _ hb

theorem length_zeroPadded {places n : Nat} (hplaces : places ≠ 0) (h : n < 10 ^ places) :
    (Bytes.zeroPadded places n).length = places := by
  have hlength : (Bytes.ofNat n).length ≤ places := by
    by_cases hn : n = 0
    · have hzero : Bytes.ofNat 0 = [Bytes.digit 0] := by rw [Bytes.ofNat, if_pos (by omega)]
      rw [hn, hzero]
      exact Nat.one_le_iff_ne_zero.mpr hplaces
    · have hpow := Nat.lt_of_le_of_lt (Bytes.ten_pow_le_of_ne_zero hn) h
      have hlt := (Nat.pow_lt_pow_iff_right (show 1 < 10 by omega)).mp hpow
      omega
  rw [Bytes.zeroPadded, List.length_append, List.length_replicate]
  omega

/-- What a fraction is written with: at most `places` digits whose value, moved to the last place, is `n`. -/
theorem exists_fractionText {places n : Nat} (hplaces : places ≠ 0) (h : n < 10 ^ places) :
    ∃ part, fractionText places n = pointed part ∧ AllDigits part ∧ part.length ≤ places ∧
      natValue part * 10 ^ (places - part.length) = n := by
  have hpadded := stripped_append (Bytes.zeroPadded places n)
  rw [length_zeroPadded hplaces h] at hpadded
  have hvalue := congrArg natValue hpadded
  rw [Bytes.natValue_zeroPadded, Bytes.natValue_append_zeros] at hvalue
  refine ⟨stripped (Bytes.zeroPadded places n), rfl, allDigits_stripped (Bytes.allDigits_zeroPadded places n), ?_,
    hvalue.symm⟩
  · have hlength := congrArg List.length hpadded
    rw [length_zeroPadded hplaces h, List.length_append] at hlength
    omega

def unitText (places : Nat) : Bytes :=
  if places = 0 then "ns" else if places = 3 then "µs" else if places = 6 then "ms" else "s"

theorem lookup_unitText {places : Nat} (hplaces : places ∈ [0, 3, 6, 9]) :
    units.lookup (unitText places) = some (10 ^ places) ∧ unitText places ≠ [] ∧
      ∀ b ∈ unitText places, !isNumberByte b := by
  simp only [List.mem_cons, List.not_mem_nil, or_false] at hplaces
  rcases hplaces with rfl | rfl | rfl | rfl <;> exact ⟨rfl, by decide +kernel, by decide +kernel⟩

theorem exists_inUnits (places n : Nat) :
    ∃ part, inUnits places n = Bytes.ofNat (n / 10 ^ places) ++ pointed part ∧ AllDigits part ∧
      part.length ≤ places ∧ natValue part * 10 ^ (places - part.length) = n % 10 ^ places := by
  by_cases hzero : places = 0
  · subst hzero
    exact ⟨[], rfl, by simp [AllDigits], Nat.le_refl 0, by simp [natValue, Nat.mod_one]⟩
  · have hmod : n % 10 ^ places < 10 ^ places := Nat.mod_lt n (Nat.pow_pos (by omega))
    obtain ⟨part, htext, hpart⟩ := exists_fractionText hzero hmod
    refine ⟨part, ?_, hpart⟩
    rw [inUnits, if_neg hzero, Binary64.tenPower_eq, htext]

theorem sumTerms_inUnits {places n total : Nat} (hplaces : places ∈ [0, 3, 6, 9]) (hle : total + n ≤ limit) :
    sumTerms total (inUnits places n ++ unitText places) = .ok (total + n) := by
  obtain ⟨hlookup, hne, hbytes⟩ := lookup_unitText hplaces
  obtain ⟨part, htext, hpart, hlength, hvalue⟩ := exists_inUnits places n
  have hnine : places ≤ 9 := by
    simp only [List.mem_cons, List.not_mem_nil, or_false] at hplaces
    omega
  have hmod : n % 10 ^ places < 10 ^ places := Nat.mod_lt n (Nat.pow_pos (by omega))
  have hpower : 10 ^ places ≤ 10 ^ 9 := Nat.pow_le_pow_right (by omega) hnine
  have hsplit : 10 ^ places = 10 ^ (places - part.length) * 10 ^ part.length := by
    rw [← Nat.pow_add, Nat.sub_add_cancel hlength]
  have hlast : 10 ^ (places - part.length) ≤ 10 ^ 9 := Nat.pow_le_pow_right (by omega) (by omega)
  have hbound : (10 : Nat) ^ 9 < 2 * Binary64.fractionBound := by decide
  have hn : natValue (Bytes.ofNat (n / 10 ^ places)) * 10 ^ places + natValue part * 10 ^ (places - part.length) =
      n := by
    rw [Bytes.natValue_ofNat, hvalue, Nat.mul_comm]
    exact Nat.div_add_mod n _
  have hterm := termValue_eq (Bytes.ofNat_ne_nil (n / 10 ^ places)) hpart (by omega) hne hlookup hsplit
    (Nat.pow_pos (by omega)) (by omega) (by omega) (by omega)
  rw [hn] at hterm
  have happend := sumTerms_append (Bytes.allDigits_ofNat _) (Bytes.ofNat_ne_nil _) hpart hbytes
    (stopsAt_nil _) hterm hle
  rw [htext, List.append_assoc, ← List.append_nil (unitText places), happend, sumTerms]

theorem sumTerms_whole {total n u : Nat} {unit rest : Bytes} (hunit : units.lookup unit = some u)
    (hne : unit ≠ []) (hbytes : ∀ b ∈ unit, !isNumberByte b) (hu : 0 < u) (hsmall : u < 2 * Binary64.fractionBound)
    (hrest : StopsAt (!isNumberByte ·) rest) (hle : total + n * u ≤ limit) :
    sumTerms total (Bytes.ofNat n ++ (unit ++ rest)) = sumTerms (total + n * u) rest := by
  have hvalue : natValue [] * u = 0 := Nat.zero_mul u
  have hnone : AllDigits [] := by simp [AllDigits]
  have hterm := termValue_eq (Bytes.ofNat_ne_nil n) hnone (by simp) hne hunit (t := u) (by simp) hu hsmall
    (by rw [hvalue]; omega) (by rw [hvalue, Bytes.natValue_ofNat]; omega)
  rw [hvalue, Bytes.natValue_ofNat, Nat.add_zero] at hterm
  exact sumTerms_append (Bytes.allDigits_ofNat n) (Bytes.ofNat_ne_nil n) hnone hbytes hrest hterm hle

theorem ofNat_stops (n : Nat) (rest : Bytes) : StopsAt (!isNumberByte ·) (Bytes.ofNat n ++ rest) := by
  obtain ⟨d, ds, hds⟩ := List.exists_cons_of_ne_nil (Bytes.ofNat_ne_nil n)
  have hd : isDigit d := Bytes.allDigits_ofNat n d (by simp [hds])
  rw [hds]
  exact stopsAt_cons _ (by simp [isNumberByte_of_isDigit hd])

theorem inUnits_stops (places n : Nat) (rest : Bytes) : StopsAt (!isNumberByte ·) (inUnits places n ++ rest) := by
  rw [inUnits, List.append_assoc]
  exact ofNat_stops _ _

theorem lookup_minute : units.lookup (Bytes.ofString "m") = some (60 * second) := rfl

theorem lookup_hour : units.lookup (Bytes.ofString "h") = some (3600 * second) := rfl

theorem sumTerms_seconds {total n : Nat} (h : total + n ≤ limit) :
    sumTerms total (inUnits 9 n ++ Bytes.ofString "s") = .ok (total + n) := by
  have hnine : 9 ∈ [0, 3, 6, 9] := by decide
  exact sumTerms_inUnits hnine h

theorem sumTerms_minutes {total m n : Nat} (h : total + m * (60 * second) + n ≤ limit) :
    sumTerms total (Bytes.ofNat m ++ (Bytes.ofString "m" ++ (inUnits 9 n ++ Bytes.ofString "s"))) =
      .ok (total + m * (60 * second) + n) := by
  have hbytes : ∀ b ∈ Bytes.ofString "m", !isNumberByte b := by decide +kernel
  rw [sumTerms_whole lookup_minute (by decide) hbytes (by decide) (by decide) (inUnits_stops _ _ _) (by omega),
    sumTerms_seconds h]

theorem sumTerms_hours {total k m n : Nat} (h : total + k * (3600 * second) + m * (60 * second) + n ≤ limit) :
    sumTerms total (Bytes.ofNat k ++ (Bytes.ofString "h" ++ (Bytes.ofNat m ++ (Bytes.ofString "m" ++
      (inUnits 9 n ++ Bytes.ofString "s"))))) = .ok (total + k * (3600 * second) + m * (60 * second) + n) := by
  have hbytes : ∀ b ∈ Bytes.ofString "h", !isNumberByte b := by decide +kernel
  rw [sumTerms_whole lookup_hour (by decide) hbytes (by decide) (by decide) (ofNat_stops _ _) (by omega),
    sumTerms_minutes h]

theorem sumTerms_magnitudeText {n : Nat} (hn : n < limit) : sumTerms 0 (magnitudeText n) = .ok n := by
  have alone {places : Nat} (hplaces : places ∈ [0, 3, 6, 9]) :
      sumTerms 0 (inUnits places n ++ unitText places) = .ok n := by
    rw [sumTerms_inUnits hplaces (by omega), Nat.zero_add]
  have hminutes : n / (60 * second) * (60 * second) + n % (60 * second) = n := Nat.div_add_mod' n _
  have hhours : n / (60 * second) / 60 * (3600 * second) + n / (60 * second) % 60 * (60 * second) =
      n / (60 * second) * (60 * second) := by
    rw [show 3600 * second = 60 * (60 * second) from rfl, ← Nat.mul_assoc, ← Nat.add_mul, Nat.div_add_mod']
  simp only [magnitudeText]
  split
  · next hzero =>
    have htext : Bytes.ofString "0s" = inUnits 9 0 ++ Bytes.ofString "s" := by decide +kernel
    rw [hzero, htext, sumTerms_seconds (Nat.zero_le _)]
  · split
    · exact alone (by decide : 0 ∈ [0, 3, 6, 9])
    · split
      · exact alone (by decide : 3 ∈ [0, 3, 6, 9])
      · split
        · exact alone (by decide : 6 ∈ [0, 3, 6, 9])
        · split
          · next hless =>
            rw [hless, Nat.zero_mul, Nat.zero_add] at hminutes
            rw [hminutes, sumTerms_seconds (by omega), Nat.zero_add]
          · split
            · rw [List.append_assoc, sumTerms_minutes (by omega), Nat.zero_add, hminutes]
            · simp only [List.append_assoc]
              rw [sumTerms_hours (by omega), Nat.zero_add, hhours, hminutes]

theorem exists_magnitudeText (n : Nat) : ∃ k rest, magnitudeText n = Bytes.ofNat k ++ rest := by
  simp only [magnitudeText, inUnits, List.append_assoc]
  split
  · exact ⟨0, Bytes.ofString "s", by decide +kernel⟩
  · repeat' split
    all_goals exact ⟨_, _, rfl⟩

theorem text_of_nonneg {d : Duration} (h : 0 ≤ d.nanoseconds) : d.text = magnitudeText d.nanoseconds.toInt.natAbs :=
  if_neg (Int.not_lt.mpr (Int64.le_iff_toInt_le.mp h))

theorem exists_text_cons {d : Duration} (h : 0 ≤ d.nanoseconds) : ∃ b rest, d.text = b :: rest ∧ isDigit b := by
  obtain ⟨k, later, hstart⟩ := exists_magnitudeText d.nanoseconds.toInt.natAbs
  obtain ⟨b, ds, hds⟩ := List.exists_cons_of_ne_nil (Bytes.ofNat_ne_nil k)
  refine ⟨b, ds ++ later, ?_, Bytes.allDigits_ofNat k b (by simp [hds])⟩
  rw [text_of_nonneg h, hstart, hds, List.cons_append]

theorem parse_text {d : Duration} (h : 0 ≤ d.nanoseconds) : parse d.text = .ok d := by
  have hbound := d.nanoseconds.toInt_lt
  have hnonneg : 0 ≤ d.nanoseconds.toInt := Int64.le_iff_toInt_le.mp h
  have hlimit : limit = 2 ^ 63 := rfl
  have hn : d.nanoseconds.toInt.natAbs < limit := by omega
  have hsum := sumTerms_magnitudeText hn
  obtain ⟨b, rest, hcons, hb⟩ := exists_text_cons h
  rw [← text_of_nonneg h, hcons] at hsum
  have hminus : ¬ b = 45 := Bytes.isDigit_ne hb rfl
  have hplus : ¬ b = 43 := Bytes.isDigit_ne hb rfl
  have hbare : ¬ b :: rest = [48] := by
    intro hzero
    have hfault : sumTerms 0 [48] = .error .missingUnit := by
      rw [sumTerms]
      rfl
    rw [hzero, hfault] at hsum
    cases hsum
  have hback : Int64.ofNat d.nanoseconds.toInt.natAbs = d.nanoseconds := by
    rw [← Int64.ofInt_eq_ofNat, Int.natAbs_of_nonneg hnonneg, Int64.ofInt_toInt]
  simp only [parse, hcons, List.head?_cons, Option.some.injEq, hminus, hplus, or_self, if_false, hbare, reduceCtorEq,
    hsum, if_pos hn, hback]

example : (⟨3723000000450⟩ : Duration).text = "1h2m3.00000045s" := by decide +kernel

end Duration

end CircuitDesk
