import CircuitDesk.Timestep
import CircuitDesk.Proofs.Numerals
import CircuitDesk.Proofs.Rounding

namespace CircuitDesk.Binary64

open Bytes (AllDigits natValue)

theorem readsBack_iff (m c : Nat) (unit : Int) :
    readsBack m c unit ↔
      nearest (Decimal.mk false c unit).quotient.1 (Decimal.mk false c unit).quotient.2 = m := by
  simp [readsBack]

theorem readsBack_step (m c : Nat) (unit : Int) : readsBack m (c * 10) (unit - 1) = readsBack m c unit := by
  have hq : nearest (Decimal.mk false (c * 10) (unit - 1)).quotient.1
      (Decimal.mk false (c * 10) (unit - 1)).quotient.2 =
      nearest (Decimal.mk false c unit).quotient.1 (Decimal.mk false c unit).quotient.2 := by
    apply nearest_congr (quotient_pos _) (quotient_pos _)
    rcases unit with (_ | k) | k
    · simp only [Decimal.quotient, show Int.ofNat 0 - 1 = Int.negSucc 0 from rfl, tenPower_eq]
      omega
    · simp only [Decimal.quotient, show Int.ofNat (k + 1) - 1 = Int.ofNat k by simp, tenPower_eq]
      rw [Nat.pow_succ, Nat.mul_assoc c, Nat.mul_comm 10]
    · simp only [Decimal.quotient, show Int.negSucc k - 1 = Int.negSucc (k + 1) from rfl, tenPower_eq]
      rw [Nat.pow_succ 10 (k + 1), Nat.mul_assoc c, Nat.mul_comm 10]
  simp only [readsBack, hq]

theorem readsBack_shift (m c : Nat) (unit : Int) (k : Nat) :
    readsBack m (c * 10 ^ k) (unit - k) = readsBack m c unit := by
  induction k with
  | zero => simp
  | succ k ih =>
    rw [← ih, Nat.pow_succ, ← Nat.mul_assoc, Int.natCast_succ, ← Int.sub_sub]
    exact readsBack_step m (c * 10 ^ k) (unit - k)

theorem nearest_fives (c n : Nat) : nearest (c * 5 ^ n) (10 ^ n) = nearest c (2 ^ n) := by
  apply nearest_congr (Nat.pow_pos (by omega)) (Nat.pow_pos (by omega))
  rw [Nat.mul_assoc, ← Nat.mul_pow]

theorem readsBack_fives (m c n k : Nat) (hn : n = k + 1) (h : nearest c (twoPower n) = m) :
    readsBack m (c * Nat.pow 5 n) (Int.negSucc k) := by
  rw [readsBack_iff, ← h, hn]
  exact nearest_fives c (k + 1)

theorem readsBack_exactDecimal (m : Nat) : readsBack m (exactDecimal m).1 (exactDecimal m).2 := by
  have hunit : (-1074 : Int) = Int.negSucc 1073 := rfl
  have hm := nearest_fraction m
  rw [denominator] at hm
  rw [exactDecimal, hunit]
  -- the powers stay closed while their exponent is a variable
  generalize hn : 1074 = n at hm ⊢
  exact readsBack_fives m (fraction m).1 n 1073 hn.symm hm

theorem readsBack_of_either {m a b c : Nat} {unit unit' : Int}
    (h : (if readsBack m a unit then some (a, unit) else if readsBack m b unit then some (b, unit) else none) =
      some (c, unit')) : readsBack m c unit' := by
  split at h
  · cases h
    assumption
  · split at h
    · cases h
      assumption
    · cases h

theorem readsBack_withDigits? {m digits c : Nat} {unit : Int} (h : withDigits? m digits = some (c, unit)) :
    readsBack m c unit := by
  unfold withDigits? at h
  generalize fraction m = p at h
  exact readsBack_of_either h

theorem readsBack_shortest (m : Nat) : readsBack m (shortest m).1 (shortest m).2 := by
  rw [shortest]
  split
  · rename_i hm
    rw [hm, readsBack_iff]
    exact nearest_zero 1 Nat.one_pos
  · cases hd : (List.range maxDigits).findSome? fun k => withDigits? m (k + 1) with
    | none => exact readsBack_exactDecimal m
    | some p =>
      obtain ⟨k, -, hk⟩ := List.exists_of_findSome?_eq_some hd
      exact readsBack_withDigits? hk

theorem stripZeros_append (ds : Bytes) :
    ∃ k, ds = stripZeros ds ++ List.replicate k 48 := by
  refine ⟨(ds.reverse.takeWhile (· = 48)).length, ?_⟩
  have hzeros : ds.reverse.takeWhile (· = 48) = List.replicate (ds.reverse.takeWhile (· = 48)).length 48 := by
    rw [List.eq_replicate_iff]
    refine ⟨rfl, fun b hb => ?_⟩
    simpa using List.all_eq_true.mp List.all_takeWhile b hb
  have hsplit := List.takeWhile_append_dropWhile (p := (· = 48)) (l := ds.reverse)
  rw [hzeros] at hsplit
  have hrev := congrArg List.reverse hsplit
  rw [List.reverse_append, List.reverse_replicate, List.reverse_reverse] at hrev
  exact hrev.symm

theorem scientific_readsBack (x : Binary64) :
    x.scientific.digits ≠ [] ∧ AllDigits x.scientific.digits ∧
      readsBack x.magnitude (natValue x.scientific.digits)
        (x.scientific.exponent + 1 - x.scientific.digits.length) := by
  have hread := readsBack_shortest x.magnitude
  simp only [scientific]
  split
  · rename_i hc
    rw [hc] at hread
    refine ⟨by simp, by simp [AllDigits, Bytes.isDigit], ?_⟩
    have hm : x.magnitude = 0 := by
      rw [readsBack_iff] at hread
      rw [← hread]
      simp only [Decimal.quotient]
      split <;> simp [nearest_zero, tenPower_pos]
    rw [hm]
    exact readsBack_shortest 0
  · rename_i hc
    obtain ⟨k, hk⟩ := stripZeros_append (Bytes.ofNat (shortest x.magnitude).1)
    have hdigits := Bytes.allDigits_ofNat (shortest x.magnitude).1
    have hvalue := Bytes.natValue_ofNat (shortest x.magnitude).1
    have hlength := congrArg List.length hk
    rw [hk, Bytes.natValue_append_zeros] at hvalue
    rw [List.length_append, List.length_replicate] at hlength
    have hne : stripZeros (Bytes.ofNat (shortest x.magnitude).1) ≠ [] := by
      intro hnil
      rw [hnil] at hvalue
      simp [natValue] at hvalue
      omega
    refine ⟨hne, fun d hd => hdigits d (by rw [hk]; simp [hd]), ?_⟩
    have hpos := List.length_pos_iff.mpr hne
    rw [← readsBack_shift _ _ _ k, hvalue]
    have hunit : (shortest x.magnitude).2 + ((Bytes.ofNat (shortest x.magnitude).1).length - 1 : Nat) + 1 -
        (stripZeros (Bytes.ofNat (shortest x.magnitude).1)).length - k = (shortest x.magnitude).2 := by
      omega
    rw [hunit]
    exact hread

theorem first_place_bounds (m n : Nat) {c len : Nat} {e : Int} (hfirst : 10 ^ (len - 1) ≤ c) (hlast : c < 10 ^ len)
    (hlen : 0 < len)
    (hhuge : ¬ (Decimal.mk false c e).quotient.2 * 10 ^ m ≤ (Decimal.mk false c e).quotient.1)
    (htiny : ¬ (Decimal.mk false c e).quotient.1 * 10 ^ n < (Decimal.mk false c e).quotient.2) :
    -(n : Int) ≤ e + (len - 1 : Nat) ∧ e + (len - 1 : Nat) < m := by
  cases e with
  | ofNat k =>
    have hquotient : (Decimal.mk false c (.ofNat k)).quotient = (c * 10 ^ k, 1) := rfl
    rw [hquotient, Nat.one_mul] at hhuge
    have hupper : 10 ^ (len - 1 + k) < 10 ^ m := by
      rw [Nat.pow_add]
      exact Nat.lt_of_le_of_lt (Nat.mul_le_mul_right (10 ^ k) hfirst) (Nat.lt_of_not_le hhuge)
    have habove := (Nat.pow_lt_pow_iff_right (by decide)).mp hupper
    simp only [Int.ofNat_eq_natCast]
    omega
  | negSucc k =>
    have hquotient : (Decimal.mk false c (.negSucc k)).quotient = (c, 10 ^ (k + 1)) := rfl
    rw [hquotient, ← Nat.pow_add] at hhuge
    rw [hquotient] at htiny
    have hupper : 10 ^ (len - 1) < 10 ^ (k + 1 + m) := Nat.lt_of_le_of_lt hfirst (Nat.lt_of_not_le hhuge)
    have hlower : 10 ^ (k + 1) < 10 ^ (len + n) := by
      rw [Nat.pow_add 10 len]
      exact Nat.lt_of_le_of_lt (Nat.le_of_not_lt htiny)
        (Nat.mul_lt_mul_of_pos_right hlast (Nat.pow_pos (by decide)))
    have habove := (Nat.pow_lt_pow_iff_right (by decide)).mp hupper
    have hbelow := (Nat.pow_lt_pow_iff_right (by decide)).mp hlower
    omega

theorem scientific_exponent_bounds {x : Binary64} (hx : x.isFinite) :
    -324 ≤ x.scientific.exponent ∧ x.scientific.exponent < 309 := by
  have hread := (readsBack_iff ..).mp (readsBack_shortest x.magnitude)
  have hfinite : x.magnitude < infinityBits := of_decide_eq_true hx
  simp only [scientific]
  split
  · dsimp only
    omega
  · rename_i hc
    have hzero : x.magnitude ≠ 0 := by
      intro h
      rw [h] at hc
      exact hc rfl
    generalize shortest x.magnitude = d at hc hread ⊢
    obtain ⟨c, e⟩ := d
    have hlast := Bytes.natValue_lt (Bytes.allDigits_ofNat c)
    rw [Bytes.natValue_ofNat] at hlast
    refine first_place_bounds 309 324 (Bytes.ten_pow_le_of_ne_zero hc) hlast
      (List.length_pos_iff.mpr (Bytes.ofNat_ne_nil c)) ?_ ?_
    · intro h
      have hle := nearest_of_huge (quotient_pos ⟨false, c, e⟩) h
      rw [hread] at hle
      exact Nat.not_le.mpr hfinite hle
    · intro h
      exact hzero (hread.symm.trans (nearest_of_tiny h))

end CircuitDesk.Binary64

namespace CircuitDesk.Timestep

open Bytes (AllDigits StopsAt isDigit natValue)

def pointed (part : Bytes) : Bytes := if part = [] then [] else 46 :: part

structure Literal where
  negative : Bool
  whole : Bytes
  part : Bytes
  exponent : Int
  whole_ne_nil : whole ≠ []
  allDigits_whole : AllDigits whole
  allDigits_part : AllDigits part
  exponent_le : exponent.natAbs ≤ 99

namespace Literal

def minus (negative : Bool) : Bytes := if negative then [45] else []

def point (l : Literal) : Bytes := pointed l.part

def text (l : Literal) : Bytes := minus l.negative ++ (l.whole ++ l.point ++ exponentText l.exponent)

def decimal (l : Literal) : Decimal :=
  ⟨l.negative, natValue (l.whole ++ l.part), l.exponent - l.part.length⟩

end Literal

theorem exponentText_eq (e : Int) :
    exponentText e = 101 :: (Literal.minus (e < 0) ++ Bytes.zeroPadded 2 e.natAbs) := by
  simp only [exponentText, Literal.minus, decide_eq_true_eq]
  split <;> rfl

theorem signedValue_exponent {e : Int} (sign : Bytes)
    (hsign : if e < 0 then sign = [45] else sign = [] ∨ sign = [43]) :
    Decimal.signedValue (sign ++ Bytes.zeroPadded 2 e.natAbs) = e := by
  have hvalue := Bytes.natValue_zeroPadded 2 e.natAbs
  split at hsign
  · rw [hsign, List.singleton_append, Decimal.signedValue, if_pos rfl, hvalue]
    omega
  · rcases hsign with rfl | rfl
    · have hdigits := Bytes.allDigits_zeroPadded 2 e.natAbs
      cases hds : Bytes.zeroPadded 2 e.natAbs with
      | nil =>
        rw [hds, natValue, List.foldl_nil] at hvalue
        rw [List.nil_append, Decimal.signedValue]
        omega
      | cons d ds =>
        rw [hds] at hvalue hdigits
        have hminus : d ≠ 45 := Bytes.isDigit_ne (hdigits d (by simp)) rfl
        have hplus : d ≠ 43 := Bytes.isDigit_ne (hdigits d (by simp)) rfl
        rw [List.nil_append, Decimal.signedValue, if_neg hminus, if_neg hplus, hvalue]
        omega
    · rw [List.singleton_append, Decimal.signedValue, if_neg (by decide), if_pos rfl, hvalue]
      omega

theorem pointed_stops (part : Bytes) {s : Bytes} (hs : StopsAt isDigit s) : StopsAt isDigit (pointed part ++ s) := by
  rw [pointed]
  split
  · exact hs
  · exact Bytes.stopsAt_cons _ rfl

theorem not_e_of_mantissa {whole part : Bytes} (hwhole : AllDigits whole) (hpart : AllDigits part) :
    ∀ b ∈ whole ++ pointed part, decide (b ≠ 101) = true := by
  have hdigit {b : UInt8} (h : isDigit b) : decide (b ≠ 101) = true := decide_eq_true (Bytes.isDigit_ne h rfl)
  intro b hb
  rcases List.mem_append.mp hb with hb | hb
  · exact hdigit (hwhole b hb)
  · rw [pointed] at hb
    split at hb
    · cases hb
    · rcases List.mem_cons.mp hb with rfl | hb
      · rfl
      · exact hdigit (hpart b hb)

theorem ofText_parts (negative : Bool) {whole part tail : Bytes} (hne : whole ≠ []) (hwhole : AllDigits whole)
    (hpart : AllDigits part) (htail : StopsAt (fun b => decide (b ≠ 101)) tail) :
    Decimal.ofText (Literal.minus negative ++ (whole ++ pointed part ++ tail)) =
      ⟨negative, natValue (whole ++ part), Decimal.signedValue (tail.drop 1) - part.length⟩ := by
  obtain ⟨d, ds, rfl⟩ := List.exists_cons_of_ne_nil hne
  have hd45 : d ≠ 45 := Bytes.isDigit_ne (hwhole d (by simp)) rfl
  have hnegative :
      decide ((Literal.minus negative ++ (d :: ds ++ pointed part ++ tail)).head? = some 45) = negative := by
    cases negative <;> simp [Literal.minus, hd45]
  have hunsigned : (if (Literal.minus negative ++ (d :: ds ++ pointed part ++ tail)).head? = some 45
      then (Literal.minus negative ++ (d :: ds ++ pointed part ++ tail)).drop 1
      else Literal.minus negative ++ (d :: ds ++ pointed part ++ tail)) = d :: ds ++ pointed part ++ tail := by
    cases negative with
    | true => rfl
    | false => exact if_neg (by simpa [Literal.minus] using hd45)
  have hmantissa := not_e_of_mantissa hwhole hpart
  have hpoint : StopsAt isDigit (pointed part) := by
    have := pointed_stops part (Bytes.stopsAt_nil isDigit)
    rwa [List.append_nil] at this
  have hdrop : (pointed part).drop 1 = part := by
    rw [pointed]
    split
    · rename_i h
      rw [h]
      rfl
    · rfl
  simp only [Decimal.ofText, hunsigned, Bytes.takeWhile_append_stop hmantissa htail,
    Bytes.dropWhile_append_stop hmantissa htail, Bytes.takeWhile_append_stop hwhole hpoint,
    Bytes.dropWhile_append_stop hwhole hpoint, hdrop, hnegative]

theorem exponentText_stops (e : Int) : StopsAt (fun b => decide (b ≠ 101)) (exponentText e) := by
  rw [exponentText_eq]
  exact Bytes.stopsAt_cons _ rfl

theorem signedValue_exponentText (e : Int) : Decimal.signedValue ((exponentText e).drop 1) = e := by
  rw [exponentText_eq, List.drop_one, List.tail_cons]
  apply signedValue_exponent
  by_cases he : e < 0
  · simp [Literal.minus, he]
  · simp [Literal.minus, he]

theorem ofText_literal (l : Literal) : Decimal.ofText l.text = l.decimal := by
  have hparts := ofText_parts l.negative l.whole_ne_nil l.allDigits_whole l.allDigits_part
    (exponentText_stops l.exponent)
  rwa [signedValue_exponentText] at hparts

theorem placePoint_eq {digits : Bytes} (hne : digits ≠ []) (hdigits : AllDigits digits) (place : Int) :
    ∃ whole part j, whole ≠ [] ∧ AllDigits whole ∧ AllDigits part ∧
      placePoint digits place = whole ++ pointed part ∧
      natValue (whole ++ part) = natValue digits * 10 ^ j ∧
      (part.length : Int) = digits.length + (j : Nat) - place := by
  simp only [placePoint]
  split
  · rename_i hright
    refine ⟨digits ++ List.replicate (place - digits.length).toNat 48, [], (place - digits.length).toNat,
      by simp [hne], hdigits.append (Bytes.allDigits_zeros _), by simp [AllDigits], by simp [pointed], ?_, ?_⟩
    · rw [List.append_nil, Bytes.natValue_append_zeros]
    · simp only [List.length_nil]
      omega
  · rename_i hright
    split
    · rename_i hleft
      refine ⟨List.replicate 1 48, List.replicate (-place).toNat 48 ++ digits, 0, by simp, Bytes.allDigits_zeros 1,
        (Bytes.allDigits_zeros _).append hdigits, ?_, ?_, ?_⟩
      · rw [pointed, if_neg (by simp [hne])]
        rfl
      · rw [Bytes.natValue_zeros_append 1, Bytes.natValue_zeros_append, Nat.pow_zero, Nat.mul_one]
      · simp only [List.length_append, List.length_replicate]
        omega
    · rename_i hleft
      refine ⟨digits.take place.toNat, digits.drop place.toNat, 0, ?_, ?_, ?_, ?_, ?_, ?_⟩
      · intro h
        have := congrArg List.length h
        simp only [List.length_take, List.length_nil] at this
        omega
      · exact fun d hd => hdigits d (List.mem_of_mem_take hd)
      · exact fun d hd => hdigits d (List.mem_of_mem_drop hd)
      · rw [pointed, if_neg]
        · simp
          rfl
        · intro h
          have := congrArg List.length h
          simp only [List.length_drop, List.length_nil] at this
          omega
      · rw [List.take_append_drop, Nat.pow_zero, Nat.mul_one]
      · simp only [List.length_drop]
        omega

theorem erase_pointed {d : UInt8} (hd : isDigit d) (ds : Bytes) : (d :: pointed ds).erase 46 = d :: ds := by
  have hne : d ≠ 46 := Bytes.isDigit_ne hd rfl
  rw [List.erase_cons_tail (by simpa using hne), pointed]
  split
  · next hnil =>
    rw [hnil]
    rfl
  · rw [List.erase_cons_head]

theorem shiftPoint_eq (negative : Bool) {d : UInt8} (hd : isDigit d) (ds : Bytes) (k : Int) :
    shiftPoint (Literal.minus negative ++ (d :: pointed ds)) k =
      Literal.minus negative ++ placePoint (d :: ds) (1 + k) := by
  have hminus : d ≠ 45 := Bytes.isDigit_ne hd rfl
  have herase := erase_pointed hd ds
  cases negative with
  | true => simp [shiftPoint, Literal.minus, herase]
  | false => simp [shiftPoint, Literal.minus, hminus, herase]

theorem placePoint_one (d : UInt8) (ds : Bytes) : placePoint (d :: ds) 1 = d :: pointed ds := by
  cases ds with
  | nil => rfl
  | cons e es =>
    have hlength : ¬ ((d :: e :: es).length : Int) ≤ 1 := by
      simp only [List.length_cons]
      omega
    rw [placePoint, if_neg hlength]
    rfl

theorem mantissa_eq {s : Binary64.Scientific} {d : UInt8} {ds : Bytes} (h : s.digits = d :: ds) :
    s.mantissa = Literal.minus s.negative ++ (d :: pointed ds) := by
  rw [Binary64.Scientific.mantissa, h, Literal.minus]
  cases ds <;> rfl

theorem exponent?_signed {b : UInt8} {es : Bytes} (hb : Numeral.isSign b) (hne : es ≠ []) (hes : AllDigits es)
    (hbound : natValue es < Integer64.bound) : exponent? (b :: es) = some (Decimal.signedValue (b :: es)) := by
  have hall : es.all isDigit := List.all_eq_true.mpr hes
  have hlimit : Integer64.bound = 2 ^ 63 := rfl
  obtain rfl | rfl : b = 45 ∨ b = 43 := by simpa [Numeral.isSign] using hb
  · have hread : exponent? (45 :: es) = (Numeral.ofUnsigned true (natValue es)).toOption.map Int64.toInt :=
      if_pos ⟨hne, hall⟩
    rw [hread, Numeral.ofUnsigned, if_pos rfl, if_pos (Nat.le_of_lt hbound), Except.toOption, Option.map_some,
      Int64.toInt_ofInt_of_le (by omega) (by omega)]
    rfl
  · have hread : exponent? (43 :: es) = (Numeral.ofUnsigned false (natValue es)).toOption.map Int64.toInt :=
      if_pos ⟨hne, hall⟩
    rw [hread, Numeral.ofUnsigned, if_neg Bool.false_ne_true, if_pos hbound, Except.toOption, Option.map_some,
      Int64.toInt_ofNat_of_lt (by omega)]
    rfl

def limited (e : Int) : Int := max (-exponentLimit) (min exponentLimit e)

theorem natAbs_limited_le (e : Int) : (limited e).natAbs ≤ 99 := by
  simp only [limited, exponentLimit]
  omega

/-- What becomes of a number in exponent form: its digits stay, and the point takes up what the exponent leaves. -/
theorem ofExponentForm_eq (negative : Bool) {d b : UInt8} {ds es : Bytes} {e : Int} (hdigits : AllDigits (d :: ds))
    (he : exponent? (b :: es) = some e) :
    ofExponentForm (Literal.minus negative ++ (d :: pointed ds) ++ 101 :: b :: es) =
      Literal.minus negative ++ placePoint (d :: ds) (1 + (e - limited e)) ++ exponentText (limited e) := by
  obtain ⟨hd, hds⟩ := List.forall_mem_cons.mp hdigits
  have hmantissa : ∀ b ∈ Literal.minus negative ++ (d :: pointed ds), decide (b ≠ 101) = true := by
    intro b hb
    rcases List.mem_append.mp hb with hb | hb
    · cases negative with
      | true =>
        cases List.mem_singleton.mp hb
        rfl
      | false => cases hb
    · have hfirst : AllDigits [d] := List.forall_mem_singleton.mpr hd
      exact not_e_of_mantissa hfirst hds b hb
  have hexponent : StopsAt (fun b => decide (b ≠ 101)) (101 :: b :: es) := Bytes.stopsAt_cons _ rfl
  simp only [ofExponentForm, Bytes.takeWhile_append_stop hmantissa hexponent,
    Bytes.dropWhile_append_stop hmantissa hexponent, List.drop_one, List.tail_cons, he]
  split
  · rename_i hlarge
    have hlimit : limited e = exponentLimit := by
      simp only [limited, exponentLimit] at hlarge ⊢
      omega
    rw [shiftPoint_eq negative hd, hlimit]
  · split
    · rename_i hsmall
      have hlimit : limited e = -exponentLimit := by
        simp only [limited, exponentLimit] at hsmall ⊢
        omega
      rw [shiftPoint_eq negative hd, hlimit, Int.sub_neg]
    · rename_i hlarge hsmall
      have hlimit : limited e = e := by
        simp only [limited, exponentLimit] at hlarge hsmall ⊢
        omega
      rw [hlimit, Int.sub_self, Int.add_zero, placePoint_one]

theorem scientific_negative (x : Binary64) : x.scientific.negative = x.negative := by
  simp only [Binary64.scientific]
  split <;> rfl

theorem exponentForm_eq {x : Binary64} (hx : x.isFinite) : ∃ d ds b es, x.scientific.digits = d :: ds ∧
    AllDigits (d :: ds) ∧ Numeral.isSign b ∧ 2 ≤ es.length ∧ AllDigits es ∧ natValue es < Integer64.bound ∧
    Decimal.signedValue (b :: es) = x.scientific.exponent ∧
    x.exponentForm = Literal.minus x.negative ++ (d :: pointed ds) ++ 101 :: b :: es := by
  obtain ⟨d, ds, hds⟩ := List.exists_cons_of_ne_nil x.scientific_readsBack.1
  have hbounds := Binary64.scientific_exponent_bounds hx
  refine ⟨d, ds, if x.scientific.exponent < 0 then 45 else 43, Bytes.zeroPadded 2 x.scientific.exponent.natAbs, hds,
    hds ▸ x.scientific_readsBack.2.1, by split <;> rfl, Bytes.le_length_zeroPadded 2 _, Bytes.allDigits_zeroPadded 2 _,
    ?_, ?_, ?_⟩
  · rw [Bytes.natValue_zeroPadded]
    simp only [Integer64.bound]
    omega
  · apply signedValue_exponent [_]
    split <;> simp
  · rw [Binary64.exponentForm, if_pos hx, Binary64.Scientific.text, mantissa_eq hds, scientific_negative]

theorem text_eq {x : Binary64} (hx : x.isFinite) :
    text x = Literal.minus x.negative ++
      placePoint x.scientific.digits (1 + (x.scientific.exponent - limited x.scientific.exponent)) ++
      exponentText (limited x.scientific.exponent) := by
  obtain ⟨d, ds, b, es, hds, hdigits, hb, hlength, hes, hbound, hexponent, hform⟩ := exponentForm_eq hx
  have hne : es ≠ [] := List.ne_nil_of_length_pos (by omega)
  have he := exponent?_signed hb hne hes hbound
  rw [hexponent] at he
  rw [text, hform, hds, ofExponentForm_eq x.negative hdigits he]

theorem text_eq_literal {x : Binary64} (hx : x.isFinite) :
    ∃ l : Literal, text x = l.text ∧ l.negative = x.negative ∧
      Binary64.readsBack x.magnitude l.decimal.coefficient l.decimal.exponent := by
  obtain ⟨hne, hdigits, hread⟩ := x.scientific_readsBack
  obtain ⟨whole, part, j, hwhole, hwd, hpd, hplace, hvalue, hlength⟩ := placePoint_eq hne hdigits
    (1 + (x.scientific.exponent - limited x.scientific.exponent))
  refine ⟨⟨x.negative, whole, part, limited x.scientific.exponent, hwhole, hwd, hpd, natAbs_limited_le _⟩, ?_, rfl, ?_⟩
  · rw [text_eq hx, hplace, List.append_assoc]
    rfl
  · have hunit : limited x.scientific.exponent - part.length =
        x.scientific.exponent + 1 - x.scientific.digits.length - (j : Nat) := by omega
    simp only [Literal.decimal, hvalue, hunit, Binary64.readsBack_shift]
    exact hread

theorem ofDecimal?_text {x : Binary64} (hx : x.isFinite) :
    Binary64.ofDecimal? (Decimal.ofText (text x)) = some x := by
  obtain ⟨l, htext, hnegative, hread⟩ := text_eq_literal hx
  have hnearest : Binary64.nearest l.decimal.quotient.1 l.decimal.quotient.2 = x.magnitude :=
    (Binary64.readsBack_iff ..).mp hread
  have hfinite : x.magnitude < Binary64.infinityBits := of_decide_eq_true hx
  have hsign : l.decimal.negative = x.negative := hnegative
  rw [htext, ofText_literal, Binary64.ofDecimal?_of_nearest hnearest hfinite, hsign,
    Binary64.ofMagnitude_magnitude]

end CircuitDesk.Timestep
