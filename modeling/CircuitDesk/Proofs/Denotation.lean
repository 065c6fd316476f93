import Mathlib.Algebra.Field.Rat
import Mathlib.Algebra.GroupWithZero.Basic
import Mathlib.Data.Rat.Cast.Defs
import Mathlib.Tactic.NormNum
import CircuitDesk.Proofs.Lexemes

namespace CircuitDesk

def Decimal.value (d : Decimal) : ℚ := (if d.negative then -1 else 1) * d.coefficient * 10 ^ d.exponent

namespace Timestep

open Bytes (AllDigits StopsAt isDigit natValue)
open Token (IsFloat isFloat_literal)

def denoted (t : Bytes) : ℚ := (Decimal.ofText t).value

inductive IsMantissa : Bytes → Prop
  | intro (negative : Bool) {d : UInt8} {ds : Bytes} : isDigit d → AllDigits ds →
      IsMantissa (Literal.minus negative ++ (d :: pointed ds))

inductive IsExponentForm : Bytes → Prop
  | intro {m es : Bytes} {b : UInt8} : IsMantissa m → Numeral.isSign b → 2 ≤ es.length → AllDigits es →
      natValue es < Integer64.bound → IsExponentForm (m ++ 101 :: b :: es)

theorem denoted_placePoint (negative : Bool) {digits tail : Bytes} (hne : digits ≠ []) (hdigits : AllDigits digits)
    (place : Int) (htail : StopsAt (fun b => decide (b ≠ 101)) tail) :
    denoted (Literal.minus negative ++ (placePoint digits place ++ tail)) = (if negative then -1 else 1) *
      natValue digits * 10 ^ (Decimal.signedValue (tail.drop 1) + place - digits.length) := by
  obtain ⟨whole, part, j, hwhole, hwd, hpd, hplace, hvalue, hlength⟩ := placePoint_eq hne hdigits place
  have hsum : Decimal.signedValue (tail.drop 1) + place - digits.length =
      j + (Decimal.signedValue (tail.drop 1) - part.length) := by omega
  rw [denoted, hplace, ofText_parts negative hwhole hwd hpd htail, Decimal.value, hvalue, hsum,
    zpow_add₀ (by norm_num), zpow_natCast]
  push_cast
  simp only [mul_assoc]

theorem denoted_mantissa (negative : Bool) {d : UInt8} {ds tail : Bytes} (hd : isDigit d) (hds : AllDigits ds)
    (htail : StopsAt (fun b => decide (b ≠ 101)) tail) :
    denoted (Literal.minus negative ++ (d :: pointed ds ++ tail)) = (if negative then -1 else 1) *
      natValue (d :: ds) * 10 ^ (Decimal.signedValue (tail.drop 1) + 1 - (d :: ds).length) := by
  have hdigits : AllDigits (d :: ds) := List.forall_mem_cons.mpr ⟨hd, hds⟩
  rw [← placePoint_one]
  exact denoted_placePoint negative (List.cons_ne_nil d ds) hdigits 1 htail

theorem denoted_shiftPoint {m : Bytes} (hm : IsMantissa m) (k : Int) :
    denoted (shiftPoint m k) = denoted m * 10 ^ k := by
  obtain ⟨negative, hd, hds⟩ := hm
  rename_i d ds
  have hdigits : AllDigits (d :: ds) := List.forall_mem_cons.mpr ⟨hd, hds⟩
  have hplaced := denoted_placePoint negative (List.cons_ne_nil d ds) hdigits (1 + k) (Bytes.stopsAt_nil _)
  have hmantissa := denoted_mantissa negative hd hds (Bytes.stopsAt_nil _)
  rw [List.append_nil] at hplaced hmantissa
  have hsum : Decimal.signedValue (List.drop 1 []) + (1 + k) - ((d :: ds).length : Int) =
      Decimal.signedValue (List.drop 1 []) + 1 - ((d :: ds).length : Int) + k := by omega
  rw [shiftPoint_eq negative hd, hplaced, hmantissa, hsum, zpow_add₀ (by norm_num), mul_assoc _ _ (10 ^ k)]

theorem isFloat_placed (negative : Bool) {digits : Bytes} (hne : digits ≠ []) (hdigits : AllDigits digits) (place : Int)
    {e : Int} (he : e.natAbs ≤ 99) :
    IsFloat (Literal.minus negative ++ placePoint digits place ++ exponentText e) := by
  obtain ⟨whole, part, -, hwhole, hwd, hpd, hplace, -⟩ := placePoint_eq hne hdigits place
  rw [hplace, List.append_assoc]
  exact isFloat_literal ⟨negative, whole, part, e, hwhole, hwd, hpd, he⟩

theorem ofExponentForm_exact {s : Bytes} (hs : IsExponentForm s) :
    IsFloat (ofExponentForm s) ∧ denoted (ofExponentForm s) = denoted s := by
  obtain ⟨hm, hb, hlength, hes, hbound⟩ := hs
  obtain ⟨negative, hd, hds⟩ := hm
  rename_i es b d ds
  have hne : es ≠ [] := List.ne_nil_of_length_pos (by omega)
  have hdigits : AllDigits (d :: ds) := List.forall_mem_cons.mpr ⟨hd, hds⟩
  have he := exponent?_signed hb hne hes hbound
  generalize hvalue : Decimal.signedValue (b :: es) = e at he
  rw [ofExponentForm_eq negative hdigits he]
  refine ⟨isFloat_placed negative (List.cons_ne_nil d ds) hdigits _ (natAbs_limited_le e), ?_⟩
  have hplaced := denoted_placePoint negative (List.cons_ne_nil d ds) hdigits (1 + (e - limited e))
    (exponentText_stops (limited e))
  have hexponent : StopsAt (fun b => decide (b ≠ 101)) (101 :: b :: es) := Bytes.stopsAt_cons _ rfl
  have hmantissa := denoted_mantissa negative hd hds hexponent
  rw [signedValue_exponentText] at hplaced
  rw [List.drop_one, List.tail_cons, hvalue] at hmantissa
  have hsum : limited e + (1 + (e - limited e)) - ((d :: ds).length : Int) = e + 1 - ((d :: ds).length : Int) := by
    omega
  rw [List.append_assoc, hplaced, List.append_assoc, hmantissa, hsum]

theorem isExponentForm {x : Binary64} (hx : x.isFinite) : IsExponentForm x.exponentForm := by
  obtain ⟨d, ds, b, es, -, hdigits, hb, hlength, hes, hbound, -, hform⟩ := exponentForm_eq hx
  obtain ⟨hd, hds⟩ := List.forall_mem_cons.mp hdigits
  rw [hform]
  exact .intro (.intro x.negative hd hds) hb hlength hes hbound

theorem lex_float (file : Bytes) {s : Bytes} (hs : IsFloat s) : Token.lex file s =
    .ok [⟨.float, s, .start file⟩, ⟨.endOfInput, [], (Position.start file).advance s⟩] := by
  have hends : Token.wordEnds [] := rfl
  have htiles := Token.tiles_of_fits (Token.fits_float hs hends)
  rw [List.append_nil, Token.tiles] at htiles
  rw [Token.lex_eq_ok, htiles]
  exact ⟨rfl, rfl⟩

/-- The text of a finite time step is a single token and stands for the number of its shortest text; moving the point of
a mantissa by any number of places multiplies it by that power of ten. -/
theorem text_exact :
    (∀ x : Binary64, x.isFinite → IsExponentForm x.exponentForm ∧
      (∀ file, Token.lex file (text x) =
        .ok [⟨.float, text x, .start file⟩, ⟨.endOfInput, [], (Position.start file).advance (text x)⟩]) ∧
      denoted (text x) = denoted x.exponentForm) ∧
    ∀ m, IsMantissa m → ∀ k : Int, denoted (shiftPoint m k) = denoted m * 10 ^ k := by
  refine ⟨fun x hx => ?_, fun m hm k => denoted_shiftPoint hm k⟩
  have hform := isExponentForm hx
  obtain ⟨hfloat, hdenoted⟩ := ofExponentForm_exact hform
  exact ⟨hform, fun file => lex_float file hfloat, hdenoted⟩

theorem text_exact_of_least :
    let x : Binary64 := ⟨1⟩
    let m : Bytes := "-1.5"
    x.exponentForm = Bytes.ofString "5e-324" ∧ (x.isFinite ∧ IsMantissa m) ∧ denoted (text x) = denoted x.exponentForm ∧
      denoted (shiftPoint m (-225)) = denoted m * 10 ^ (-225 : Int) := by
  intro x m
  have hone : isDigit 49 := rfl
  have hfive : AllDigits [53] := List.forall_mem_singleton.mpr rfl
  have hm : IsMantissa m := .intro true hone hfive
  exact ⟨by decide +kernel, ⟨rfl, hm⟩, (text_exact.1 x rfl).2.2, text_exact.2 m hm (-225)⟩

end Timestep

end CircuitDesk
