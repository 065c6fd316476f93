import Mathlib.Algebra.Group.Nat.Defs
import CircuitDesk.Proofs.Rounding

namespace CircuitDesk.Binary64

/-- Halfway between the greatest finite number, `(2 ^ 53 - 1) * 2 ^ 971`, and `2 ^ 1024`. -/
def overflowBound : Nat := (twoPower 54 - 1) * twoPower 970

theorem le_roundHalfEven {num den k : Nat} (hd : 0 < den) (h : k * den ≤ num) : k ≤ roundHalfEven num den := by
  have hq : k ≤ num / den := (Nat.le_div_iff_mul_le hd).mpr h
  rw [roundHalfEven]
  split
  · exact hq
  · split
    · omega
    · split <;> omega

theorem roundHalfEven_le_succ (num den : Nat) : roundHalfEven num den ≤ num / den + 1 := by
  rw [roundHalfEven]
  split
  · omega
  · split
    · omega
    · split <;> omega

theorem le_roundHalfEven_iff {num den k : Nat} (hd : 0 < den) (hk : k % 2 = 0) (hpos : 0 < k) :
    k ≤ roundHalfEven num den ↔ (2 * k - 1) * den ≤ 2 * num := by
  have hsplit : den * (num / den) + num % den = num := Nat.div_add_mod num den
  have hrem : num % den < den := Nat.mod_lt num hd
  rcases Nat.lt_trichotomy k (num / den + 1) with hlt | heq | hgt
  · have hle : k * den ≤ num := (Nat.le_div_iff_mul_le hd).mp (Nat.lt_succ_iff.mp hlt)
    have hhalf : (2 * k - 1) * den ≤ 2 * k * den := Nat.mul_le_mul_right den (Nat.sub_le _ _)
    rw [Nat.mul_assoc] at hhalf
    exact ⟨fun _ => by omega, fun _ => le_roundHalfEven hd hle⟩
  · -- the only case where the remainder and the parity of the quotient decide
    have hdouble : (2 * k - 1) * den = 2 * (den * (num / den)) + den := by
      rw [heq, show 2 * (num / den + 1) - 1 = 2 * (num / den) + 1 by omega, Nat.add_mul, Nat.one_mul,
        Nat.mul_assoc, Nat.mul_comm (num / den)]
    have hround : k ≤ roundHalfEven num den ↔ den ≤ 2 * (num % den) := by
      simp only [roundHalfEven]
      split
      · omega
      · split
        · omega
        · split <;> omega
    rw [hround, hdouble]
    omega
  · have hround := roundHalfEven_le_succ num den
    have hmul : (2 * (num / den) + 3) * den ≤ (2 * k - 1) * den := Nat.mul_le_mul_right den (by omega)
    rw [Nat.add_mul, Nat.mul_assoc, Nat.mul_comm (num / den)] at hmul
    constructor
    · intro h
      omega
    · intro h
      omega

theorem twoPower_mono {m n : Nat} (h : m ≤ n) : twoPower m ≤ twoPower n := Nat.pow_le_pow_right Nat.two_pos h

theorem scaled_lt (num den : Nat) (hd : 0 < den) :
    num * denominator <
      twoPower (bitLength (num * denominator / (den * (2 * fractionBound)))) * (den * (2 * fractionBound)) := by
  have hpos : 0 < den * (2 * fractionBound) := Nat.mul_pos hd (Nat.mul_pos Nat.two_pos fractionBound_pos)
  exact (Nat.div_lt_iff_lt_mul hpos).mp (lt_two_pow_bitLength _)

theorem le_scaled {num den s : Nat} (hd : 0 < den)
    (hs : bitLength (num * denominator / (den * (2 * fractionBound))) = s + 1) :
    twoPower s * (den * (2 * fractionBound)) ≤ num * denominator := by
  have hpos : 0 < den * (2 * fractionBound) := Nat.mul_pos hd (Nat.mul_pos Nat.two_pos fractionBound_pos)
  have hne : num * denominator / (den * (2 * fractionBound)) ≠ 0 := by
    intro h
    rw [h] at hs
    cases hs
  have hle := two_pow_le_of_ne_zero hne
  rw [hs] at hle
  exact (Nat.le_div_iff_mul_le hpos).mp hle

theorem infinityBits_le_nearest {num den : Nat} (hd : 0 < den) :
    infinityBits ≤ nearest num den ↔ overflowBound * den ≤ num := by
  have hupper := scaled_lt num den hd
  simp only [nearest]
  generalize hs : bitLength (num * denominator / (den * (2 * fractionBound))) = s at hupper ⊢
  have hden : 0 < den * twoPower s := Nat.mul_pos hd (twoPower_pos s)
  rcases Nat.lt_trichotomy s 2045 with hlt | rfl | hgt
  · have hfew : roundHalfEven (num * denominator) (den * twoPower s) ≤ 2 * fractionBound := by
      have hdiv : num * denominator / (den * twoPower s) < 2 * fractionBound := by
        rw [Nat.div_lt_iff_lt_mul hden]
        calc num * denominator < twoPower s * (den * (2 * fractionBound)) := hupper
          _ = 2 * fractionBound * (den * twoPower s) := by
            rw [Nat.mul_comm, Nat.mul_comm den, Nat.mul_assoc]
      have := roundHalfEven_le_succ (num * denominator) (den * twoPower s)
      omega
    have hsmall : num < overflowBound * den := by
      have hpow : twoPower s ≤ twoPower 2044 := twoPower_mono (by omega)
      have hbound : twoPower 2044 * (2 * fractionBound) ≤ overflowBound * denominator := by decide +kernel
      refine Nat.lt_of_mul_lt_mul_right (a := denominator) ?_
      calc num * denominator < twoPower s * (den * (2 * fractionBound)) := hupper
        _ ≤ twoPower 2044 * (den * (2 * fractionBound)) := Nat.mul_le_mul_right _ hpow
        _ = twoPower 2044 * (2 * fractionBound) * den := by rw [Nat.mul_comm den, ← Nat.mul_assoc]
        _ ≤ overflowBound * denominator * den := Nat.mul_le_mul_right den hbound
        _ = overflowBound * den * denominator := Nat.mul_right_comm ..
    have hscale := Nat.mul_le_mul_right fractionBound (Nat.le_of_lt_succ hlt)
    have hinf : 2044 * fractionBound + 2 * fractionBound < infinityBits := by decide
    constructor
    · intro h
      omega
    · intro h
      omega
  · -- the last scale of finite numbers, where rounding up to 54 digits is what leads out of them
    have hinf : infinityBits = 2045 * fractionBound + 2 * fractionBound := by decide
    have hhalf : (2 * (2 * fractionBound) - 1) * twoPower 2045 = overflowBound * (2 * denominator) := by
      decide +kernel
    have hdouble : 0 < 2 * denominator := Nat.mul_pos Nat.two_pos denominator_pos
    have hleft : (2 * (2 * fractionBound) - 1) * (den * twoPower 2045) =
        overflowBound * den * (2 * denominator) := by
      rw [Nat.mul_left_comm, hhalf, Nat.mul_left_comm, Nat.mul_assoc]
    rw [hinf, Nat.add_le_add_iff_left, le_roundHalfEven_iff hden (by decide) (by decide), hleft,
      Nat.mul_left_comm 2 num, Nat.mul_le_mul_right_iff hdouble]
  · obtain ⟨k, rfl⟩ : ∃ k, s = k + 1 := ⟨s - 1, by omega⟩
    have hlower := le_scaled hd hs
    have hmany : fractionBound ≤ roundHalfEven (num * denominator) (den * twoPower (k + 1)) := by
      refine le_roundHalfEven hden ?_
      calc fractionBound * (den * twoPower (k + 1)) = twoPower k * (den * (2 * fractionBound)) := by
            rw [twoPower_eq, twoPower_eq, Nat.pow_succ, Nat.mul_left_comm, Nat.mul_left_comm (2 ^ k),
              Nat.mul_comm fractionBound, Nat.mul_assoc]
        _ ≤ num * denominator := hlower
    have hlarge : overflowBound * den ≤ num := by
      have hpow : twoPower 2045 ≤ twoPower k := twoPower_mono (by omega)
      have hbound : overflowBound * denominator ≤ twoPower 2045 * (2 * fractionBound) := by decide +kernel
      refine Nat.le_of_mul_le_mul_right (c := denominator) ?_ denominator_pos
      calc overflowBound * den * denominator = overflowBound * denominator * den := Nat.mul_right_comm ..
        _ ≤ twoPower 2045 * (2 * fractionBound) * den := Nat.mul_le_mul_right den hbound
        _ = twoPower 2045 * (den * (2 * fractionBound)) := by rw [Nat.mul_comm den, Nat.mul_assoc]
        _ ≤ twoPower k * (den * (2 * fractionBound)) := Nat.mul_le_mul_right _ hpow
        _ ≤ num * denominator := hlower
    have hscale := Nat.mul_le_mul_right fractionBound hgt
    have hinf : infinityBits = 2046 * fractionBound + fractionBound := by decide
    constructor
    · exact fun _ => hlarge
    · intro _
      omega

theorem ofDecimal?_eq_none_iff (d : Decimal) :
    ofDecimal? d = none ↔ overflowBound * d.quotient.2 ≤ d.quotient.1 := by
  rw [← infinityBits_le_nearest (quotient_pos d)]
  constructor
  · intro h
    refine Nat.le_of_not_lt fun hlt => ?_
    rw [ofDecimal?_of_nearest rfl hlt] at h
    cases h
  · intro h
    rw [ofDecimal?]
    split
    · rename_i hzero
      rw [nearest_of_least hzero] at h
      exact absurd h (by decide)
    · split
      · rfl
      · exact if_neg (Nat.not_lt.mpr h)

end CircuitDesk.Binary64
