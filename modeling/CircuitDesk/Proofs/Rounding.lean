import Mathlib.Algebra.Group.Nat.Defs
import CircuitDesk.Binary64

namespace CircuitDesk.Binary64

theorem twoPower_eq (n : Nat) : twoPower n = 2 ^ n := rfl

theorem twoPower_pos (n : Nat) : 0 < twoPower n := Nat.pow_pos (by omega)

theorem denominator_pos : 0 < denominator := twoPower_pos 1074

theorem fractionBound_pos : 0 < fractionBound := by decide

theorem tenPower_eq (n : Nat) : Decimal.tenPower n = 10 ^ n := rfl

theorem tenPower_pos (n : Nat) : 0 < Decimal.tenPower n := Nat.pow_pos (by omega)

theorem roundHalfEven_mul (k num den : Nat) (hk : 0 < k) :
    roundHalfEven (k * num) (k * den) = roundHalfEven num den := by
  have hlow : 2 * (k * (num % den)) < k * den ↔ 2 * (num % den) < den := by
    rw [Nat.mul_left_comm, Nat.mul_lt_mul_left hk]
  have hhigh : k * den < 2 * (k * (num % den)) ↔ den < 2 * (num % den) := by
    rw [Nat.mul_left_comm, Nat.mul_lt_mul_left hk]
  simp only [roundHalfEven, Nat.mul_div_mul_left num den hk, Nat.mul_mod_mul_left, hlow, hhigh]

theorem roundHalfEven_exact (a den : Nat) (hd : 0 < den) : roundHalfEven (a * den) den = a := by
  simp only [roundHalfEven, Nat.mul_div_cancel a hd, Nat.mul_mod_left, Nat.mul_zero, if_pos hd]

theorem roundHalfEven_small {num den : Nat} (h : 2 * num < den) : roundHalfEven num den = 0 := by
  have hlt : num < den := by omega
  simp only [roundHalfEven, Nat.div_eq_of_lt hlt, Nat.mod_eq_of_lt hlt, if_pos h]

theorem nearest_mul (k num den : Nat) (hk : 0 < k) : nearest (k * num) (k * den) = nearest num den := by
  simp only [nearest, Nat.mul_assoc k, Nat.mul_div_mul_left _ _ hk, roundHalfEven_mul _ _ _ hk]

theorem nearest_congr {num den num' den' : Nat} (hd : 0 < den) (hd' : 0 < den')
    (h : num * den' = num' * den) : nearest num den = nearest num' den' := by
  rw [← nearest_mul den' num den hd', ← nearest_mul den num' den' hd, Nat.mul_comm den' num, h,
    Nat.mul_comm num' den, Nat.mul_comm den' den]

theorem bitLength_eq_of_bounds {n k : Nat} (hl : 2 ^ k ≤ n) (hu : n < 2 ^ (k + 1)) : bitLength n = k + 1 := by
  have hn : n ≠ 0 := by
    have := Nat.pow_pos (a := 2) (n := k) (by omega)
    omega
  have hlog : n.log2 = k := (Nat.log2_eq_iff hn).mpr ⟨hl, hu⟩
  rw [bitLength, if_neg hn, hlog]

theorem lt_two_pow_bitLength (n : Nat) : n < 2 ^ bitLength n := by
  rw [bitLength]
  split
  · omega
  · exact Nat.lt_log2_self

theorem two_pow_le_of_ne_zero {n : Nat} (hn : n ≠ 0) : 2 ^ (bitLength n - 1) ≤ n := by
  rw [bitLength, if_neg hn]
  exact Nat.log2_self_le hn

theorem lt_bitLength_of_le {n k : Nat} (h : 2 ^ k ≤ n) : k < bitLength n := by
  have hlt := Nat.lt_of_le_of_lt h (lt_two_pow_bitLength n)
  exact (Nat.pow_lt_pow_iff_right (by omega)).mp hlt

theorem nearest_wholes (x : Nat) :
    nearest x denominator = bitLength (x / (2 * fractionBound)) * fractionBound +
      roundHalfEven x (twoPower (bitLength (x / (2 * fractionBound)))) := by
  simp only [nearest, Nat.mul_comm x denominator, Nat.mul_div_mul_left _ _ denominator_pos,
    roundHalfEven_mul _ _ _ denominator_pos]

theorem bitLength_significand {f e : Nat} (hf : f < fractionBound) :
    bitLength ((fractionBound + f) * twoPower e / (2 * fractionBound)) = e := by
  cases e with
  | zero =>
    rw [Nat.div_eq_of_lt]
    · rfl
    · simp only [twoPower_eq, Nat.pow_zero]
      omega
  | succ e =>
    have hhalf : (fractionBound + f) * twoPower (e + 1) / (2 * fractionBound) =
        (fractionBound + f) * 2 ^ e / fractionBound := by
      rw [twoPower_eq, Nat.pow_succ, ← Nat.mul_assoc, Nat.mul_comm _ 2,
        Nat.mul_div_mul_left _ _ (by omega : 0 < 2)]
    rw [hhalf]
    apply bitLength_eq_of_bounds
    · rw [Nat.le_div_iff_mul_le fractionBound_pos, Nat.mul_comm]
      exact Nat.mul_le_mul_right _ (by omega)
    · rw [Nat.div_lt_iff_lt_mul fractionBound_pos, Nat.pow_succ, Nat.mul_assoc, Nat.mul_comm (2 ^ e)]
      exact Nat.mul_lt_mul_of_pos_right (by omega) (Nat.pow_pos (by omega))

theorem nearest_fraction (m : Nat) : nearest (fraction m).1 denominator = m := by
  simp only [fraction, nearest_wholes]
  by_cases hm : m < fractionBound
  · have hscale : scale m = 0 := by simp [scale, Nat.div_eq_of_lt hm]
    have hwhole : m * twoPower 0 / (2 * fractionBound) = 0 := by
      simp only [twoPower_eq, Nat.pow_zero, Nat.mul_one]
      exact Nat.div_eq_of_lt (by omega)
    simp only [significand, if_pos hm, hscale, hwhole]
    simp only [bitLength, if_true, Nat.zero_mul, Nat.zero_add]
    exact roundHalfEven_exact m (twoPower 0) (twoPower_pos 0)
  · have hf : m % fractionBound < fractionBound := Nat.mod_lt m fractionBound_pos
    have he : 1 ≤ m / fractionBound := (Nat.one_le_div_iff fractionBound_pos).mpr (by omega)
    simp only [significand, if_neg hm, scale, bitLength_significand hf,
      roundHalfEven_exact _ _ (twoPower_pos _)]
    have hsplit := Nat.div_add_mod m fractionBound
    have hcarry := Nat.sub_one_mul (m / fractionBound) fractionBound
    have hle := Nat.mul_le_mul_right fractionBound he
    rw [Nat.mul_comm fractionBound] at hsplit
    omega

theorem nearest_of_tiny {num den : Nat} (h : num * 10 ^ 324 < den) : nearest num den = 0 := by
  have hpow : 2 * denominator ≤ 10 ^ 324 := by decide +kernel
  have hhalf : 2 * (num * denominator) < den := by
    have := Nat.mul_le_mul_left num hpow
    rw [Nat.mul_left_comm] at this
    omega
  have hscale : num * denominator / (den * (2 * fractionBound)) = 0 := by
    apply Nat.div_eq_of_lt
    have := Nat.le_mul_of_pos_right den (Nat.mul_pos Nat.two_pos fractionBound_pos)
    omega
  simp only [nearest, hscale, bitLength, if_true, Nat.zero_mul, Nat.zero_add, twoPower_eq, Nat.pow_zero,
    Nat.mul_one]
  exact roundHalfEven_small hhalf

theorem nearest_of_huge {num den : Nat} (hd : 0 < den) (h : den * 10 ^ 309 ≤ num) :
    infinityBits ≤ nearest num den := by
  have hpow : 2 ^ 2047 * (2 * fractionBound) ≤ 10 ^ 309 * denominator := by decide +kernel
  have hscale : 2 ^ 2047 ≤ num * denominator / (den * (2 * fractionBound)) := by
    rw [Nat.le_div_iff_mul_le (Nat.mul_pos hd (Nat.mul_pos Nat.two_pos fractionBound_pos))]
    calc 2 ^ 2047 * (den * (2 * fractionBound)) = den * (2 ^ 2047 * (2 * fractionBound)) := Nat.mul_left_comm ..
      _ ≤ den * (10 ^ 309 * denominator) := Nat.mul_le_mul_left den hpow
      _ = den * 10 ^ 309 * denominator := by rw [Nat.mul_assoc]
      _ ≤ num * denominator := Nat.mul_le_mul_right denominator h
  have hbits := Nat.mul_le_mul_right fractionBound (lt_bitLength_of_le hscale)
  have hinf : infinityBits ≤ 2048 * fractionBound := by decide
  simp only [nearest]
  omega

theorem coefficient_lt (c : Nat) : c < 10 ^ (4 * (bitLength c / 13 + 1)) := by
  have hbits : bitLength c ≤ 13 * (bitLength c / 13 + 1) := by omega
  calc c < 2 ^ bitLength c := lt_two_pow_bitLength c
    _ ≤ 2 ^ (13 * (bitLength c / 13 + 1)) := Nat.pow_le_pow_right (by omega) hbits
    _ ≤ 10 ^ (4 * (bitLength c / 13 + 1)) := by
      rw [Nat.pow_mul, Nat.pow_mul]
      exact Nat.pow_le_pow_left (by omega) _

theorem le_coefficient {c : Nat} (hc : c ≠ 0) : 10 ^ (3 * ((bitLength c - 1) / 10)) ≤ c := by
  have hbits : 10 * ((bitLength c - 1) / 10) ≤ bitLength c - 1 := by omega
  calc 10 ^ (3 * ((bitLength c - 1) / 10)) ≤ 2 ^ (10 * ((bitLength c - 1) / 10)) := by
        rw [Nat.pow_mul, Nat.pow_mul]
        exact Nat.pow_le_pow_left (by omega) _
    _ ≤ 2 ^ (bitLength c - 1) := Nat.pow_le_pow_right (by omega) hbits
    _ ≤ c := two_pow_le_of_ne_zero hc

theorem coefficient_mul_lt (c : Nat) {n k : Nat} (h : 4 * (bitLength c / 13 + 1) + n ≤ k) :
    c * 10 ^ n < 10 ^ k := by
  calc c * 10 ^ n < 10 ^ (4 * (bitLength c / 13 + 1)) * 10 ^ n :=
        Nat.mul_lt_mul_of_pos_right (coefficient_lt c) (Nat.pow_pos (by omega))
    _ = 10 ^ (4 * (bitLength c / 13 + 1) + n) := (Nat.pow_add ..).symm
    _ ≤ 10 ^ k := Nat.pow_le_pow_right (by omega) h

theorem le_coefficient_mul {c : Nat} (hc : c ≠ 0) {j n k : Nat}
    (h : j + n ≤ 3 * ((bitLength c - 1) / 10) + k) : 10 ^ j * 10 ^ n ≤ c * 10 ^ k := by
  calc 10 ^ j * 10 ^ n = 10 ^ (j + n) := (Nat.pow_add ..).symm
    _ ≤ 10 ^ (3 * ((bitLength c - 1) / 10) + k) := Nat.pow_le_pow_right (by omega) h
    _ = 10 ^ (3 * ((bitLength c - 1) / 10)) * 10 ^ k := Nat.pow_add ..
    _ ≤ c * 10 ^ k := Nat.mul_le_mul_right _ (le_coefficient hc)

theorem quotient_pos (d : Decimal) : 0 < d.quotient.2 := by
  rw [Decimal.quotient]
  split
  · exact Nat.one_pos
  · exact tenPower_pos _

theorem quotient_tiny {d : Decimal} (h : powerAbove d ≤ leastPower) :
    d.quotient.1 * 10 ^ 324 < d.quotient.2 := by
  rw [powerAbove, leastPower] at h
  rw [Decimal.quotient]
  split
  · rename_i k hk
    simp only [hk, Int.ofNat_eq_natCast] at h
    omega
  · rename_i k hk
    rw [hk] at h
    exact coefficient_mul_lt d.coefficient (by omega)

theorem quotient_huge {d : Decimal} (hc : d.coefficient ≠ 0) (h : greatestPower ≤ powerBelow d) :
    d.quotient.2 * 10 ^ 309 ≤ d.quotient.1 := by
  rw [powerBelow, greatestPower] at h
  rw [Decimal.quotient]
  split
  · rename_i k hk
    simp only [hk, Int.ofNat_eq_natCast] at h
    exact le_coefficient_mul (j := 0) hc (by omega)
  · rename_i k hk
    rw [hk] at h
    have hle := le_coefficient_mul (j := k + 1) (n := 309) (k := 0) hc (by omega)
    rwa [Nat.pow_zero, Nat.mul_one] at hle

theorem nearest_zero (den : Nat) (hd : 0 < den) : nearest 0 den = 0 := by
  apply nearest_of_tiny
  omega

theorem nearest_of_least {d : Decimal} (h : d.coefficient = 0 ∨ powerAbove d ≤ leastPower) :
    nearest d.quotient.1 d.quotient.2 = 0 := by
  rcases h with hc | hp
  · have hnum : d.quotient.1 = 0 := by
      rw [Decimal.quotient]
      split <;> simp [hc]
    rw [hnum, nearest_zero _ (quotient_pos d)]
  · exact nearest_of_tiny (quotient_tiny hp)

/-- The shortcuts change nothing: the result is the nearest number wherever that is finite. -/
theorem ofDecimal?_of_nearest {d : Decimal} {m : Nat} (h : nearest d.quotient.1 d.quotient.2 = m)
    (hm : m < infinityBits) : ofDecimal? d = some (ofMagnitude d.negative m) := by
  rw [ofDecimal?]
  split
  · rename_i hzero
    rw [← h, nearest_of_least hzero]
  · rename_i hzero
    have hc : d.coefficient ≠ 0 := fun hc => hzero (.inl hc)
    split
    · rename_i hp
      have := nearest_of_huge (quotient_pos d) (quotient_huge hc hp)
      omega
    · simp only [h, if_pos hm]

theorem magnitude_ofMagnitude (negative : Bool) {m : Nat} (hm : m < infinityBits) :
    (ofMagnitude negative m).magnitude = m := by
  rw [infinityBits] at hm
  cases negative
  · simp [magnitude, ofMagnitude, signBit]
    omega
  · simp [magnitude, ofMagnitude, signBit]
    omega

theorem isFinite_of_ofDecimal? {d : Decimal} {x : Binary64} (h : ofDecimal? d = some x) : x.isFinite := by
  have hfinite {m : Nat} (hm : m < infinityBits) : (ofMagnitude d.negative m).isFinite := by
    rw [isFinite, magnitude_ofMagnitude _ hm]
    exact decide_eq_true hm
  rw [ofDecimal?] at h
  split at h
  · cases h
    exact hfinite (by decide)
  · split at h
    · cases h
    · simp only at h
      split at h
      · cases h
        exact hfinite ‹_›
      · cases h

theorem ofMagnitude_magnitude (x : Binary64) : ofMagnitude x.negative x.magnitude = x := by
  obtain ⟨bits⟩ := x
  have hlt := bits.toNat_lt
  have hsplit : (if signBit ≤ bits.toNat then signBit else 0) + bits.toNat % signBit = bits.toNat := by
    by_cases hs : signBit ≤ bits.toNat
    · rw [if_pos hs]
      rw [signBit] at hs ⊢
      omega
    · rw [if_neg hs]
      rw [signBit] at hs ⊢
      omega
  simp only [ofMagnitude, negative, magnitude, decide_eq_true_eq, hsplit]
  simp

end CircuitDesk.Binary64
