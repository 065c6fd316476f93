import Mathlib.Algebra.Group.Nat.Defs
import CircuitDesk.Program.OfTree

namespace CircuitDesk.Bytes

theorem toNat_digit {n : Nat} (h : n < 10) : (digit n).toNat = 48 + n := by
  simp only [digit, UInt8.toNat_add, UInt8.toNat_ofNat, Nat.toUInt8, UInt8.toNat_ofNat']
  omega

theorem isDigit_iff (b : UInt8) : isDigit b ↔ 48 ≤ b.toNat ∧ b.toNat ≤ 57 := by
  simp [isDigit, UInt8.le_iff_toNat_le]

theorem isDigit_ne {b c : UInt8} (h : isDigit b) (hc : isDigit c = false) : b ≠ c := by
  rintro rfl
  rw [hc] at h
  cases h

theorem isDigit_digit {n : Nat} (h : n < 10) : isDigit (digit n) := by
  rw [isDigit_iff, toNat_digit h]
  omega

theorem digitValue_digit {n : Nat} (h : n < 10) : digitValue (digit n) = n := by
  rw [digitValue, toNat_digit h]
  omega

def AllDigits (ds : Bytes) : Prop := ∀ d ∈ ds, isDigit d

theorem AllDigits.append {a b : Bytes} (ha : AllDigits a) (hb : AllDigits b) : AllDigits (a ++ b) := by
  intro d hd
  rcases List.mem_append.mp hd with hd | hd
  · exact ha d hd
  · exact hb d hd

theorem allDigits_zeros (k : Nat) : AllDigits (List.replicate k 48) := by
  intro d hd
  rw [(List.mem_replicate.mp hd).2]
  rfl

theorem ofNat_ne_nil (n : Nat) : ofNat n ≠ [] := by
  rw [ofNat]
  split <;> simp

theorem allDigits_ofNat (n : Nat) : AllDigits (ofNat n) := by
  induction n using ofNat.induct with
  | case1 n h =>
    rw [ofNat, if_pos h]
    intro d hd
    rw [List.mem_singleton.mp hd]
    exact isDigit_digit h
  | case2 n h ih =>
    rw [ofNat, if_neg h]
    apply ih.append
    intro d hd
    rw [List.mem_singleton.mp hd]
    exact isDigit_digit (Nat.mod_lt _ (by omega))

theorem foldl_digits (ds : Bytes) (n : Nat) :
    ds.foldl (fun n d => 10 * n + digitValue d) n = n * 10 ^ ds.length + natValue ds := by
  induction ds generalizing n with
  | nil => simp [natValue]
  | cons d ds ih =>
    have hd := ih (digitValue d)
    simp only [natValue, List.foldl_cons, List.length_cons, Nat.mul_zero, Nat.zero_add] at hd ⊢
    rw [ih, hd, natValue, Nat.pow_succ, Nat.add_mul, Nat.mul_comm 10 n, Nat.mul_assoc, Nat.mul_comm 10,
      Nat.add_assoc]

theorem natValue_append (a b : Bytes) : natValue (a ++ b) = natValue a * 10 ^ b.length + natValue b := by
  rw [natValue, List.foldl_append, foldl_digits]
  rfl

theorem natValue_ofNat (n : Nat) : natValue (ofNat n) = n := by
  induction n using ofNat.induct with
  | case1 n h =>
    rw [ofNat, if_pos h]
    simp [natValue, digitValue_digit h]
  | case2 n h ih =>
    have hlast := digitValue_digit (Nat.mod_lt n (show 0 < 10 by omega))
    have hunits : natValue [digit (n % 10)] = n % 10 := by simp [natValue, hlast]
    rw [ofNat, if_neg h, natValue_append, ih, hunits]
    have := Nat.div_add_mod n 10
    simp only [List.length_singleton, Nat.pow_one]
    omega

theorem natValue_lt {ds : Bytes} (h : AllDigits ds) : natValue ds < 10 ^ ds.length := by
  induction ds with
  | nil => simp [natValue]
  | cons d ds ih =>
    have hd := (isDigit_iff d).mp (h d (by simp))
    have hds := ih fun b hb => h b (by simp [hb])
    have hsplit : natValue (d :: ds) = digitValue d * 10 ^ ds.length + natValue ds := by
      rw [natValue, List.foldl_cons, foldl_digits, Nat.mul_zero, Nat.zero_add]
    have hfirst := Nat.mul_le_mul_right (10 ^ ds.length) (show digitValue d ≤ 9 by rw [digitValue]; omega)
    rw [hsplit, List.length_cons, Nat.pow_succ]
    omega

theorem ten_pow_le_of_ne_zero {n : Nat} (hn : n ≠ 0) : 10 ^ ((ofNat n).length - 1) ≤ n := by
  induction n using ofNat.induct with
  | case1 n h =>
    rw [ofNat, if_pos h]
    exact Nat.one_le_iff_ne_zero.mpr hn
  | case2 n h ih =>
    have htenth := ih (by omega)
    have hlength := List.length_pos_iff.mpr (ofNat_ne_nil (n / 10))
    rw [ofNat, if_neg h, List.length_append, List.length_singleton]
    calc 10 ^ ((ofNat (n / 10)).length + 1 - 1) = 10 ^ ((ofNat (n / 10)).length - 1) * 10 := by
          rw [← Nat.pow_succ]
          congr 1
          omega
      _ ≤ n / 10 * 10 := Nat.mul_le_mul_right 10 htenth
      _ ≤ n := Nat.div_mul_le_self n 10

theorem natValue_zeros (k : Nat) : natValue (List.replicate k 48) = 0 := by
  induction k with
  | zero => rfl
  | succ k ih =>
    rw [List.replicate_succ', natValue_append, ih]
    simp [natValue, digitValue]

theorem natValue_zeros_append (k : Nat) (ds : Bytes) : natValue (List.replicate k 48 ++ ds) = natValue ds := by
  rw [natValue_append, natValue_zeros, Nat.zero_mul, Nat.zero_add]

theorem natValue_append_zeros (ds : Bytes) (k : Nat) :
    natValue (ds ++ List.replicate k 48) = natValue ds * 10 ^ k := by
  rw [natValue_append, natValue_zeros, List.length_replicate, Nat.add_zero]

theorem length_ofNat_le_two {n : Nat} (h : n < 100) : (ofNat n).length ≤ 2 := by
  rw [ofNat]
  split
  · simp
  · rw [ofNat, if_pos (by omega)]
    simp

theorem length_zeroPadded_two {n : Nat} (h : n < 100) : (zeroPadded 2 n).length = 2 := by
  have := length_ofNat_le_two h
  simp only [zeroPadded, List.length_append, List.length_replicate]
  omega

theorem le_length_zeroPadded (width n : Nat) : width ≤ (zeroPadded width n).length := by
  simp only [zeroPadded, List.length_append, List.length_replicate]
  omega

theorem allDigits_zeroPadded (width n : Nat) : AllDigits (zeroPadded width n) :=
  (allDigits_zeros _).append (allDigits_ofNat n)

theorem natValue_zeroPadded (width n : Nat) : natValue (zeroPadded width n) = n := by
  rw [zeroPadded, natValue_zeros_append, natValue_ofNat]

def StopsAt (p : UInt8 → Bool) (s : Bytes) : Prop := ∀ b, s.head? = some b → p b = false

theorem stopsAt_nil (p : UInt8 → Bool) : StopsAt p [] := by
  intro b h
  cases h

theorem stopsAt_cons {p : UInt8 → Bool} {b : UInt8} (s : Bytes) (h : p b = false) : StopsAt p (b :: s) := by
  rintro _ ⟨⟩
  exact h

theorem StopsAt.takeWhile {p : UInt8 → Bool} {s : Bytes} (h : StopsAt p s) : s.takeWhile p = [] := by
  cases s with
  | nil => rfl
  | cons b s => rw [List.takeWhile_cons, h b rfl, if_neg Bool.false_ne_true]

theorem StopsAt.dropWhile {p : UInt8 → Bool} {s : Bytes} (h : StopsAt p s) : s.dropWhile p = s := by
  cases s with
  | nil => rfl
  | cons b s => rw [List.dropWhile_cons, h b rfl, if_neg Bool.false_ne_true]

theorem takeWhile_append_stop {p : UInt8 → Bool} {run s : Bytes} (hrun : ∀ b ∈ run, p b) (hs : StopsAt p s) :
    (run ++ s).takeWhile p = run := by
  rw [List.takeWhile_append_of_pos hrun, hs.takeWhile, List.append_nil]

theorem dropWhile_append_stop {p : UInt8 → Bool} {run s : Bytes} (hrun : ∀ b ∈ run, p b) (hs : StopsAt p s) :
    (run ++ s).dropWhile p = s := by
  rw [List.dropWhile_append_of_pos hrun, hs.dropWhile]

theorem ofNat_head_ne {n : Nat} {b : UInt8} (hb : isDigit b = false) : (ofNat n).head? ≠ some b := by
  intro h
  have := allDigits_ofNat n b (List.mem_of_mem_head? h)
  rw [hb] at this
  cases this

theorem ofInt64_of_nonneg {w : Int64} (h : 0 ≤ w) : ofInt64 w = ofNat w.toInt.toNat := by
  have hw : 0 ≤ w.toInt := by simpa using Int64.le_iff_toInt_le.mp h
  rw [ofInt64, ← Int.toNat_of_nonneg hw]
  rfl

theorem number?_ofInt64 {w : Int64} (h : 0 ≤ w) : Tree.number? (ofInt64 w) = some w := by
  have hw : 0 ≤ w.toInt := by simpa using Int64.le_iff_toInt_le.mp h
  have hlt : w.toInt < 2 ^ 63 := w.toInt_lt
  have hbound : w.toInt.toNat < Integer64.bound := by
    simp only [Integer64.bound]
    omega
  rw [ofInt64_of_nonneg h, Tree.number?, natValue_ofNat]
  simp only [hbound, if_true, Option.some.injEq]
  rw [← Int64.toInt_inj, Int64.toInt_ofNat_of_lt (by simpa [Integer64.bound] using hbound)]
  omega

end CircuitDesk.Bytes
