import CircuitDesk.Yaml.Token.Queue

namespace CircuitDesk.Yaml

open Scanner (isMark noKey orderMarkChar)

def isWordChar (c : Char) : Bool := isAllowed c && !isBlank c && !isBreak c && !isMark c && c ≠ orderMarkChar

structure IsWord (w : List Char) : Prop where
  ne_nil : w ≠ []
  chars : ∀ c ∈ w, isWordChar c
  start : w.head? ≠ some '.'

def StartsWord (cs : List Char) : Prop := ∀ c ∈ cs.head?, isWordChar c

theorem IsWord.startsWord {w : List Char} (hw : IsWord w) (rest : List Char) : StartsWord (w ++ rest) := by
  obtain ⟨c, w, rfl⟩ := List.exists_cons_of_ne_nil hw.ne_nil
  rintro _ ⟨⟩
  exact hw.chars c List.mem_cons_self

section Characters

variable {c : Char} (h : isWordChar c)

include h

theorem isAllowed_of_isWordChar : isAllowed c := by
  simp only [isWordChar, Bool.and_eq_true] at h
  exact h.1.1.1.1

theorem isBlank_of_isWordChar : isBlank c = false := by
  simp only [isWordChar, Bool.and_eq_true, Bool.not_eq_true'] at h
  exact h.1.1.1.2

theorem isBreak_of_isWordChar : isBreak c = false := by
  simp only [isWordChar, Bool.and_eq_true, Bool.not_eq_true'] at h
  exact h.1.1.2

theorem isMark_of_isWordChar : isMark c = false := by
  simp only [isWordChar, Bool.and_eq_true, Bool.not_eq_true'] at h
  exact h.1.2

theorem ne_orderMark_of_isWordChar : c ≠ orderMarkChar := by
  simp only [isWordChar, Bool.and_eq_true, decide_eq_true_eq] at h
  exact h.2

theorem ne_of_isMark {m : Char} (hm : isMark m) : c ≠ m := by
  rintro rfl
  rw [isMark_of_isWordChar h] at hm
  cases hm

theorem ne_of_isBreak {m : Char} (hm : isBreak m) : c ≠ m := by
  rintro rfl
  rw [isBreak_of_isWordChar h] at hm
  cases hm

theorem ne_of_isBlank {m : Char} (hm : isBlank m) : c ≠ m := by
  rintro rfl
  rw [isBlank_of_isWordChar h] at hm
  cases hm

end Characters

theorem StartsWord.head?_ne {cs : List Char} (hcs : StartsWord cs) : cs.head? ≠ some orderMarkChar := fun h =>
  ne_orderMark_of_isWordChar (hcs _ h) rfl

theorem plainRun_append {w : List Char} (hw : ∀ c ∈ w, isWordChar c) {rest : List Char}
    (hrest : plainRun false rest = 0) : plainRun false (w ++ rest) = w.length := by
  induction w with
  | nil => exact hrest
  | cons c w ih =>
    obtain ⟨hc, hw⟩ := List.forall_mem_cons.mp hw
    have hcolon : c ≠ ':' := ne_of_isMark hc rfl
    simp only [List.cons_append, plainRun, isBlank_of_isWordChar hc, isBreak_of_isWordChar hc, hcolon, ih hw,
      decide_false, Bool.false_and, Bool.or_self, Bool.false_eq_true, if_false, List.length_cons]

theorem plainRun_word {w : List Char} (hw : IsWord w) {rest : List Char} (hrest : plainRun false rest = 0) :
    plainRun false (w ++ rest) = w.length ∧ w.length ≠ 0 :=
  ⟨plainRun_append hw.chars hrest, mt List.length_eq_zero_iff.mp hw.ne_nil⟩

theorem gapFrom_cons {c : Char} (hc : c ≠ '\r') (least index line column : Nat) (g : Gap) (rest : List Char) :
    gapFrom least index line column g (c :: rest) =
      if isBreak c then gapFrom least (index + 1) (line + 1) 0 (g.addBreak c) rest
      else if isBlank c then
        if g.broken && column < least && c = '\t' then .error (.onLine line .tabInPlain)
        else gapFrom least (index + 1) line (column + 1) (g.addBlank c) rest
      else .ok (g, ⟨c :: rest, index, line, column⟩) :=
  gapFrom.eq_3 _ _ _ _ _ _ _ fun _ h _ => hc h

theorem gapFrom_stop {cs : List Char} (hcs : StartsWord cs) (least index line column : Nat) (g : Gap) :
    gapFrom least index line column g cs = .ok (g, ⟨cs, index, line, column⟩) := by
  cases cs with
  | nil => rw [gapFrom]
  | cons c cs =>
    have hc := hcs c rfl
    rw [gapFrom_cons (ne_of_isBreak hc rfl)]
    simp only [isBreak_of_isWordChar hc, isBlank_of_isWordChar hc, Bool.false_eq_true, if_false]

theorem gapFrom_spaces {g : Gap} (hg : g.broken) {cs : List Char} (hcs : StartsWord cs)
    (least index line column j : Nat) : gapFrom least index line column g (List.replicate j ' ' ++ cs) =
      .ok (g, ⟨cs, index + j, line, column + j⟩) := by
  induction j generalizing index column with
  | zero => exact gapFrom_stop hcs least index line column g
  | succ j ih =>
    rw [List.replicate_succ, List.cons_append, gapFrom_cons (by decide)]
    simp only [show isBreak ' ' = false from rfl, show isBlank ' ' = true from rfl, Gap.addBlank, hg, if_true,
      Bool.false_eq_true, if_false, show decide (' ' = '\t') = false from rfl, Bool.and_false, ih]
    rw [Nat.add_right_comm index, Nat.add_right_comm column]
    rfl

theorem IsWord.hasMarker_eq_false {w : List Char} (hw : IsWord w) (mark : Char) (hmark : isMark mark ∨ mark = '.')
    (rest : List Char) (index line column : Nat) :
    (Cursor.mk (w ++ rest) index line column).hasMarker mark = false := by
  obtain ⟨c, w, rfl⟩ := List.exists_cons_of_ne_nil hw.ne_nil
  have hne : c ≠ mark := by
    rcases hmark with hmark | rfl
    · exact ne_of_isMark (hw.chars c List.mem_cons_self) hmark
    · intro h
      exact hw.start (by rw [h]; rfl)
  simp [Cursor.hasMarker, hne]

theorem plainFrom_word {w rest : List Char} (hw : IsWord w) (hrest : plainRun false rest = 0)
    (least rounds index line column : Nat) :
    plainFrom false least (rounds + 1) ⟨w ++ rest, index, line, column⟩ [] .empty =
      (gapFrom least (index + w.length) line (column + w.length) .empty rest).bind fun (g, c) =>
        if g = .empty || c.column < least then .ok ⟨w, c, g.broken⟩
        else plainFrom false least rounds c w.reverse g := by
  obtain ⟨hrun, hsome⟩ := plainRun_word hw hrest
  have hmarker : (Cursor.mk (w ++ rest) index line column).atMarker = false := by
    rw [Cursor.atMarker, hw.hasMarker_eq_false '-' (.inl rfl), hw.hasMarker_eq_false '.' (.inr rfl)]
    rfl
  have hcomment : (Cursor.mk (w ++ rest) index line column).peek? ≠ some '#' := by
    intro h
    exact ne_of_isMark (hw.startsWord rest '#' h) (m := '#') rfl rfl
  rw [plainFrom]
  simp only [hrun, hmarker, hcomment, hsome, decide_false, Bool.or_self, Bool.false_eq_true, if_false, Cursor.gap,
    Cursor.skip, List.take_left, List.drop_left]
  have hdone : (Gap.empty.text ++ w).reverse ++ [] = w.reverse := List.append_nil _
  simp only [hdone, List.reverse_reverse, Bool.not_false, Bool.true_and]
  rfl

theorem plainScalar_key {w rest : List Char} (hw : IsWord w) (hrest : endsWord rest.head?)
    (least index line column : Nat) : plainScalar false least ⟨w ++ ':' :: rest, index, line, column⟩ =
      .ok ⟨w, ⟨':' :: rest, index + w.length, line, column + w.length⟩, false⟩ := by
  rw [plainScalar, plainFrom_word hw (by simp [plainRun, hrest]), gapFrom_cons (by decide)]
  rfl

theorem plainScalar_value {w rest : List Char} (hw : IsWord w) (hrest : StartsWord rest) {j least : Nat}
    (hj : j < least) (index line column : Nat) :
    plainScalar false least ⟨w ++ '\n' :: (List.replicate j ' ' ++ rest), index, line, column⟩ =
      .ok ⟨w, ⟨rest, index + w.length + 1 + j, line + 1, j⟩, true⟩ := by
  rw [plainScalar, plainFrom_word hw (by simp [plainRun, show isBreak '\n' = true from rfl]), gapFrom_cons (by decide),
    if_pos (show isBreak '\n' from rfl), gapFrom_spaces rfl hrest, Nat.zero_add]
  exact if_pos (Bool.or_eq_true_iff.mpr (.inr (decide_eq_true hj)))

end CircuitDesk.Yaml
