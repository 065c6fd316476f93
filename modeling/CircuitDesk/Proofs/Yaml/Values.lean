import CircuitDesk.Proofs.Characters
import CircuitDesk.Proofs.Yaml.Words
import CircuitDesk.Yaml.Value

namespace CircuitDesk.Yaml

open Bytes (AllDigits isDigit)

theorem decode_ofChars {cs : List Char} (hcs : ∀ c ∈ cs, isAllowed c) (room : Nat) (done block : List Char) :
    decode room done block (Bytes.ofChars cs) = ⟨(block ++ done).reverse ++ cs, none⟩ := by
  induction cs generalizing room done block with
  | nil => rw [Bytes.ofChars_nil, decode, List.append_nil]
  | cons c cs ih =>
    obtain ⟨hc, hcs⟩ := List.forall_mem_cons.mp hcs
    obtain ⟨b, r, -, hbytes, hfirst⟩ := Bytes.exists_ofChars_cons c cs
    rw [hbytes, decode]
    simp only [hfirst, hc, Bool.not_true, Bool.false_eq_true, if_false, List.drop_left]
    split <;> simp [ih hcs]

theorem orderMark_not_prefix {cs : List Char} (hcs : StartsWord cs) :
    orderMark.isPrefixOf (Bytes.ofChars cs) = false := by
  rw [Bool.eq_false_iff, ne_eq, List.isPrefixOf_iff_prefix]
  rintro ⟨t, ht⟩
  cases cs with
  | nil => cases ht
  | cons c cs =>
    obtain ⟨b, r, -, hbytes, hfirst⟩ := Bytes.exists_ofChars_cons c cs
    rw [hbytes] at ht
    obtain ⟨rfl, hr⟩ := List.cons.inj ht
    have hchar : (Bytes.firstGlyph 0xEF (r ++ Bytes.ofChars cs)).1 = .char Scanner.orderMarkChar := by
      rw [← hr]
      rfl
    rw [hfirst] at hchar
    cases hchar
    exact hcs.head?_ne rfl

theorem characters_ofChars {cs : List Char} (hcs : ∀ c ∈ cs, isAllowed c) (hstart : StartsWord cs) :
    characters (Bytes.ofChars cs) = ⟨cs, none⟩ := by
  rw [characters, orderMark_not_prefix hstart, if_neg (by simp), decode_ofChars hcs]
  rfl

def IsPlain (s : Bytes) : Prop := ∃ w, s = Bytes.ofChars w ∧ ∀ c ∈ w, isWordChar c

theorem IsPlain.append {s t : Bytes} (hs : IsPlain s) (ht : IsPlain t) : IsPlain (s ++ t) := by
  obtain ⟨w, rfl, hw⟩ := hs
  obtain ⟨v, rfl, hv⟩ := ht
  exact ⟨w ++ v, List.flatMap_append.symm, List.forall_mem_append.mpr ⟨hw, hv⟩⟩

theorem isPlain_ofString (s : String) (hs : s.toList.all isWordChar) : IsPlain (Bytes.ofString s) :=
  ⟨s.toList, rfl, List.all_eq_true.mp hs⟩

theorem encode_digit : ∀ n < 10, String.utf8EncodeChar (Char.ofNat (48 + n)) = [Bytes.digit n] ∧
    isWordChar (Char.ofNat (48 + n)) := by
  decide

theorem isPlain_of_allDigits {ds : Bytes} (hds : AllDigits ds) : IsPlain ds := by
  induction ds with
  | nil => exact ⟨[], rfl, by simp⟩
  | cons d ds ih =>
    obtain ⟨hd, hds⟩ := List.forall_mem_cons.mp hds
    have hrange := (Bytes.isDigit_iff d).mp hd
    obtain ⟨hbytes, hchar⟩ := encode_digit (d.toNat - 48) (by omega)
    have hdigit : Bytes.digit (d.toNat - 48) = d := by
      rw [← UInt8.toNat_inj, Bytes.toNat_digit (by omega)]
      omega
    rw [hdigit] at hbytes
    have hone : IsPlain [d] := by
      refine ⟨[Char.ofNat (48 + (d.toNat - 48))], ?_, by simpa using hchar⟩
      rw [Bytes.ofChars, List.flatMap_singleton, hbytes]
    exact hone.append (ih hds)

theorem IsPlain.exists_word {s : Bytes} (hs : IsPlain s) (hne : s ≠ []) (hpoint : s.head? ≠ some 46) :
    ∃ w, IsWord w ∧ Bytes.ofChars w = s := by
  obtain ⟨w, rfl, hw⟩ := hs
  refine ⟨w, ⟨fun h => hne (by rw [h]; rfl), hw, fun h => hpoint ?_⟩, rfl⟩
  cases w with
  | nil => cases h
  | cons c w =>
    cases h
    rfl

end CircuitDesk.Yaml

namespace CircuitDesk.Numeral

open Bytes (AllDigits isDigit)

theorem digitValue?_of_isDigit {d : UInt8} (hd : isDigit d) : digitValue? d = some (Bytes.digitValue d) := if_pos hd

theorem ne_underscore_of_isDigit {d : UInt8} (hd : isDigit d) : d ≠ underscore := Bytes.isDigit_ne hd rfl

theorem readDigits_decimal {ds : Bytes} (hds : AllDigits ds) {n : Nat}
    (h : n * 10 ^ ds.length + Bytes.natValue ds < unsignedBound) :
    readDigits 10 n ds = .ok (n * 10 ^ ds.length + Bytes.natValue ds) := by
  induction ds generalizing n with
  | nil => simp [readDigits, Bytes.natValue]
  | cons d ds ih =>
    obtain ⟨hd, hds⟩ := List.forall_mem_cons.mp hds
    have hdigit := (Bytes.isDigit_iff d).mp hd
    have hsmall : ¬ 10 ≤ Bytes.digitValue d := by
      rw [Bytes.digitValue]
      omega
    have hvalue : n * 10 ^ (d :: ds).length + Bytes.natValue (d :: ds) =
        (10 * n + Bytes.digitValue d) * 10 ^ ds.length + Bytes.natValue ds := by
      have hsplit := Bytes.natValue_append [d] ds
      have hone : Bytes.natValue [d] = Bytes.digitValue d := by simp [Bytes.natValue]
      rw [List.singleton_append, hone] at hsplit
      rw [hsplit, List.length_cons, Nat.pow_succ, Nat.add_mul, Nat.mul_comm 10 n, Nat.mul_assoc, Nat.mul_comm 10,
        Nat.add_assoc]
    rw [hvalue] at h ⊢
    have hfits : 10 * n + Bytes.digitValue d < unsignedBound := by
      have hpower : 0 < 10 ^ ds.length := Nat.pow_pos (by omega)
      have hle := Nat.le_mul_of_pos_right (10 * n + Bytes.digitValue d) hpower
      omega
    rw [readDigits, if_neg (ne_underscore_of_isDigit hd), digitValue?_of_isDigit hd]
    simp only [if_neg hsmall, if_pos hfits]
    exact ih hds h

theorem underscoresFit_of_allDigits {ds : Bytes} (hds : AllDigits ds) (digit : Bool) : underscoresFit digit ds := by
  induction ds generalizing digit with
  | nil => rfl
  | cons d ds ih =>
    obtain ⟨hd, hds⟩ := List.forall_mem_cons.mp hds
    rw [underscoresFit, if_neg (ne_underscore_of_isDigit hd)]
    exact ih hds true

theorem ofNat_head_ne_zero {n : Nat} (hn : n ≠ 0) : (Bytes.ofNat n).head? ≠ some 48 := by
  obtain ⟨d, ds, hds⟩ := List.exists_cons_of_ne_nil (Bytes.ofNat_ne_nil n)
  rw [hds, List.head?_cons]
  rintro ⟨⟩
  -- behind a zero there are too few digits
  have hrest : AllDigits ds := fun b hb => Bytes.allDigits_ofNat n b (by rw [hds]; exact List.mem_cons_of_mem _ hb)
  have hlow := Bytes.ten_pow_le_of_ne_zero hn
  have hvalue := Bytes.natValue_ofNat n
  have hlt := Bytes.natValue_lt hrest
  have hzero := Bytes.natValue_zeros_append 1 ds
  rw [hds, List.length_cons, Nat.add_sub_cancel] at hlow
  rw [List.replicate_one, List.singleton_append, ← hds, hvalue] at hzero
  omega

theorem readUnsigned_ofNat {n : Nat} (hn : n < unsignedBound) : readUnsigned (Bytes.ofNat n) = .ok n := by
  by_cases hzero : n = 0
  · have htext : Bytes.ofNat 0 = [48] := by
      rw [Bytes.ofNat, if_pos (by omega)]
      rfl
    rw [hzero, htext]
    rfl
  · have hdigits := Bytes.allDigits_ofNat n
    have hhead := ofNat_head_ne_zero hzero
    have hrun := underscoresFit_of_allDigits hdigits false
    have hread := readDigits_decimal hdigits (n := 0) (by rwa [Nat.zero_mul, Nat.zero_add, Bytes.natValue_ofNat])
    rw [Nat.zero_mul, Nat.zero_add, Bytes.natValue_ofNat] at hread
    obtain ⟨d, ds, hds⟩ := List.exists_cons_of_ne_nil (Bytes.ofNat_ne_nil n)
    rw [hds] at hhead hrun hread ⊢
    have hbase : splitBase (d :: ds) = (10, d :: ds) := by
      unfold splitBase
      split <;> simp_all
    have hfits : hasFittingUnderscores (d :: ds) := by
      unfold hasFittingUnderscores
      split <;> simp_all
    rw [readUnsigned, if_neg (List.cons_ne_nil d ds), hbase, hread]
    simp only [bind, Except.bind, hfits, if_true]
    rfl

theorem readSigned_ofNat {n : Nat} (hn : n < Integer64.bound) : readSigned (Bytes.ofNat n) = .ok (Int64.ofNat n) := by
  have hsigned : n < unsignedBound := by
    rw [unsignedBound]
    omega
  have hread := readUnsigned_ofNat hsigned
  obtain ⟨d, ds, hds⟩ := List.exists_cons_of_ne_nil (Bytes.ofNat_ne_nil n)
  have hd : isDigit d := Bytes.allDigits_ofNat n d (by simp [hds])
  have hsign : isSign d = false := by
    have hminus : d ≠ 45 := Bytes.isDigit_ne hd rfl
    have hplus : d ≠ 43 := Bytes.isDigit_ne hd rfl
    simp [isSign, hminus, hplus]
  rw [hds] at hread ⊢
  have hsplit : splitSign (d :: ds) = (false, d :: ds) := by simp [splitSign, hsign]
  rw [readSigned, hsplit, hread]
  exact if_pos hn

end CircuitDesk.Numeral

namespace CircuitDesk.Yaml

open Bytes (AllDigits isDigit)

namespace Value

theorem ne_of_isDigit {words : List Bytes} (hwords : words.all fun w => !w.head?.any isDigit) {d : UInt8}
    (hd : isDigit d) (ds : Bytes) : ∀ w ∈ words, w ≠ d :: ds := by
  rintro w hw rfl
  have hfalse := List.all_eq_true.mp hwords _ hw
  simp [hd] at hfalse

theorem any_eq_false_of_isDigit {words : List Bytes} (hwords : words.all fun w => !w.head?.any isDigit) {d : UInt8}
    (hd : isDigit d) (ds : Bytes) : words.any (· = d :: ds) = false := by
  simpa using ne_of_isDigit hwords hd ds

theorem ofWord_digit {d : UInt8} (hd : isDigit d) (dates : Bool) (ds : Bytes) : ofWord dates (d :: ds) =
    if dates && isTimestamp (d :: ds) then .timestamp else (number? (d :: ds)).getD (.text (d :: ds)) := by
  have hspecial : specialFloats.lookup (d :: ds) = none := by
    rw [List.lookup_eq_none_iff]
    intro p hp
    have hwords : (specialFloats.map Prod.fst).all fun w => !w.head?.any isDigit := by decide
    have hne := ne_of_isDigit hwords hd ds p.1 (List.mem_map_of_mem hp)
    simpa using hne.symm
  have hstarts : startsNumber (d :: ds) := by simp [startsNumber, hd]
  rw [ofWord, any_eq_false_of_isDigit (by decide) hd, any_eq_false_of_isDigit (by decide) hd,
    any_eq_false_of_isDigit (by decide) hd]
  simp only [Bool.false_eq_true, if_false, hspecial, hstarts, if_true]

theorem number?_cases (s : Bytes) :
    number? s = none ∨ (∃ n, number? s = some (.int n)) ∨ ∃ x, number? s = some (.float x) := by
  rw [number?]
  cases integer? (withoutUnderscores s) with
  | some n => exact .inr (.inl ⟨n, rfl⟩)
  | none =>
    cases float? (withoutUnderscores s) with
    | some x => exact .inr (.inr ⟨x, rfl⟩)
    | none => exact .inl rfl

theorem ofWord_digit_cases {d : UInt8} (hd : isDigit d) (dates : Bool) (ds : Bytes) :
    ofWord dates (d :: ds) = .timestamp ∨ (∃ n, ofWord dates (d :: ds) = .int n) ∨
      (∃ x, ofWord dates (d :: ds) = .float x) ∨ ofWord dates (d :: ds) = .text (d :: ds) := by
  rw [ofWord_digit hd]
  split
  · exact .inl rfl
  · rcases number?_cases (d :: ds) with h | ⟨n, h⟩ | ⟨x, h⟩
    · exact .inr (.inr (.inr (by rw [h]; rfl)))
    · exact .inr (.inl ⟨n, by rw [h]; rfl⟩)
    · exact .inr (.inr (.inl ⟨x, by rw [h]; rfl⟩))

theorem isTimestamp_of_allDigits {ds : Bytes} (hds : AllDigits ds) : isTimestamp ds = false := by
  have hyear : ds.takeWhile isDigit = ds := by
    have htake := Bytes.takeWhile_append_stop hds (Bytes.stopsAt_nil isDigit)
    rwa [List.append_nil] at htake
  by_cases hfour : ds.length = 4
  · have hnone : ds.drop 4 = [] := List.drop_eq_nil_of_le (by omega)
    simp [isTimestamp, Timestamp.afterDate?, hyear, hfour, hnone, Timestamp.numberAfter?]
  · simp [isTimestamp, Timestamp.afterDate?, hyear, hfour]

theorem withoutUnderscores_of_allDigits {ds : Bytes} (hds : AllDigits ds) : withoutUnderscores ds = ds :=
  List.filter_eq_self.mpr fun d hd => decide_eq_true (Numeral.ne_underscore_of_isDigit (hds d hd))

theorem number?_ofNat {n : Nat} (hn : n < Integer64.bound) : number? (Bytes.ofNat n) = some (.int n) := by
  have hread := Numeral.readSigned_ofNat hn
  have hvalue : (Int64.ofNat n).toInt = n := Int64.toInt_ofNat_of_lt (by simpa [Integer64.bound] using hn)
  have hinteger : integer? (Bytes.ofNat n) = some (n : Int) := by
    rw [integer?, hread]
    simp only [hvalue]
  rw [number?, withoutUnderscores_of_allDigits (Bytes.allDigits_ofNat n), hinteger]

theorem ofWord_ofNat {n : Nat} (hn : n < Integer64.bound) : ofWord true (Bytes.ofNat n) = .int n := by
  obtain ⟨d, ds, hds⟩ := List.exists_cons_of_ne_nil (Bytes.ofNat_ne_nil n)
  have hd : isDigit d := Bytes.allDigits_ofNat n d (by simp [hds])
  have hdate := isTimestamp_of_allDigits (Bytes.allDigits_ofNat n)
  have hnumber := number?_ofNat hn
  rw [hds] at hdate hnumber ⊢
  rw [ofWord_digit hd, hdate, hnumber]
  rfl

end Value

end CircuitDesk.Yaml
