import CircuitDesk.Proofs.Columns

namespace CircuitDesk

namespace Bytes

theorem lines_ne_nil (s : Bytes) : lines s ≠ [] := by
  cases s with
  | nil => exact List.cons_ne_nil _ _
  | cons b s =>
    rw [lines, split]
    split
    · exact List.cons_ne_nil _ _
    · split <;> exact List.cons_ne_nil _ _

theorem lines_unlines {ls : List Bytes} (hne : ls ≠ []) (h : ∀ l ∈ ls, newline ∉ l) : lines (unlines ls) = ls := by
  induction ls with
  | nil => exact absurd rfl hne
  | cons l ls ih =>
    obtain ⟨hl, hls⟩ := List.forall_mem_cons.mp h
    cases ls with
    | nil => exact lines_of_single hl
    | cons m ms =>
      have hjoin : unlines (l :: m :: ms) = l ++ newline :: unlines (m :: ms) := by simp [unlines, join]
      rw [hjoin, lines_append_newline hl, ih (List.cons_ne_nil m ms) hls]

end Bytes

namespace Display

open Bytes (lines newline ofChars unlines)

def PlainLine (l : Bytes) : Prop := ∃ cs, l = ofChars cs ∧ ∀ c ∈ cs, Single c

def PlainText (t : Bytes) : Prop := ∀ l ∈ lines t, PlainLine l

/-- The first characters of a line, and blanks where it has none. -/
def padded (cs : List Char) (x : Nat) : List Char := cs.take x ++ List.replicate (x - cs.length) ' '

def spliceChars (cs strip : List Char) (x : Nat) : List Char := padded cs x ++ strip ++ cs.drop (x + strip.length)

section

variable {cs strip : List Char} {x : Nat}

theorem single_blank : Single ' ' := by decide +kernel

theorem length_padded (cs : List Char) (x : Nat) : (padded cs x).length = x := by
  rw [padded, List.length_append, List.length_take, List.length_replicate]
  omega

theorem getElem?_padded (cs : List Char) {x k : Nat} (h : k < x) : (padded cs x)[k]? = cs[k]?.or (some ' ') := by
  rw [padded]
  by_cases hk : k < cs.length
  · rw [List.getElem?_append_left (by rw [List.length_take]; omega), List.getElem?_take_of_lt h,
      List.getElem?_eq_getElem hk]
    rfl
  · rw [List.getElem?_append_right (by rw [List.length_take]; omega), List.getElem?_eq_none (Nat.le_of_not_lt hk),
      List.getElem?_replicate, if_pos (by rw [List.length_take]; omega)]
    rfl

theorem getElem?_splice (cs strip : List Char) (x k : Nat) :
    (spliceChars cs strip x)[k]? = if k < x then cs[k]?.or (some ' ')
      else if k < x + strip.length then strip[k - x]? else cs[k]? := by
  have hlength := length_padded cs x
  rw [spliceChars]
  split
  · next hk =>
    rw [List.append_assoc, List.getElem?_append_left (by omega), getElem?_padded cs hk]
  · split
    · rw [List.append_assoc, List.getElem?_append_right (by omega), List.getElem?_append_left (by omega), hlength]
    · rw [List.getElem?_append_right (by rw [List.length_append]; omega), List.getElem?_drop, List.length_append,
        hlength]
      congr 1
      omega

theorem splice_splice (cs strip : List Char) (x : Nat) :
    spliceChars (spliceChars cs strip x) strip x = spliceChars cs strip x := by
  apply List.ext_getElem?
  intro k
  rw [getElem?_splice, getElem?_splice]
  split
  · cases cs[k]? <;> rfl
  · split <;> rfl

theorem single_splice (hcs : ∀ c ∈ cs, Single c) (hstrip : ∀ c ∈ strip, Single c) :
    ∀ c ∈ spliceChars cs strip x, Single c := by
  simp only [spliceChars, padded, List.forall_mem_append]
  refine ⟨⟨⟨fun c hc => hcs c (List.mem_of_mem_take hc), fun c hc => ?_⟩, hstrip⟩,
    fun c hc => hcs c (List.mem_of_mem_drop hc)⟩
  rw [List.eq_of_mem_replicate hc]
  exact single_blank

theorem spliceLine_ofChars (hcs : ∀ c ∈ cs, Single c) (hstrip : ∀ c ∈ strip, Single c) :
    spliceLine (ofChars cs) (ofChars strip) x = ofChars (spliceChars cs strip x) := by
  have hkept := fun c hc => hcs c (List.mem_of_mem_take (i := x) hc)
  have hright : (x : Int) + (strip.length : Int) = ((x + strip.length : Nat) : Int) := by omega
  have hshort : x - min x cs.length = x - cs.length := by omega
  rw [spliceLine, if_neg (by omega), Int.toNat_natCast, truncate_ofChars hcs, width_ofChars hkept, width_ofChars hstrip,
    hright, Int.toNat_natCast, truncateLeft_ofChars hcs, Bytes.spaces_eq, List.length_take, hshort]
  simp [ofChars, spliceChars, padded]

end

/-- What stands in column `k` of a line when another line is drawn over it from column `x` on. -/
def covered (line strip : Bytes) (x k : Nat) : Option Bytes :=
  if k < x then (columns line)[k]?.or (some " ")
  else if k < x + width strip then (columns strip)[k - x]?
  else (columns line)[k]?

theorem columns_splice {line strip : Bytes} (hline : PlainLine line) (hstrip : PlainLine strip) (x k : Nat) :
    (columns (spliceLine line strip x))[k]? = covered line strip x k := by
  obtain ⟨cs, rfl, hcs⟩ := hline
  obtain ⟨os, rfl, hos⟩ := hstrip
  rw [spliceLine_ofChars hcs hos, columns_ofChars (single_splice hcs hos), covered, columns_ofChars hcs,
    columns_ofChars hos, width_ofChars hos, List.getElem?_map, getElem?_splice]
  split
  · rw [List.getElem?_map]
    cases cs[k]? <;> rfl
  · split <;> rw [List.getElem?_map]

theorem PlainLine.splice {line strip : Bytes} (hline : PlainLine line) (hstrip : PlainLine strip) (x : Nat) :
    PlainLine (spliceLine line strip x) ∧ spliceLine (spliceLine line strip x) strip x = spliceLine line strip x := by
  obtain ⟨cs, rfl, hcs⟩ := hline
  obtain ⟨os, rfl, hos⟩ := hstrip
  have hsingle := single_splice (x := x) hcs hos
  rw [spliceLine_ofChars hcs hos, spliceLine_ofChars hsingle hos, splice_splice]
  exact ⟨⟨_, rfl, hsingle⟩, rfl⟩

theorem PlainLine.newline_notMem {line : Bytes} (h : PlainLine line) : newline ∉ line := by
  obtain ⟨cs, rfl, hcs⟩ := h
  intro hmem
  have hsingle := hcs _ (Bytes.control_of_ofChars (by decide) hmem)
  revert hsingle
  decide

theorem coveringLine?_eq (covers : List Bytes) (y : Int) (i : Nat) :
    coveringLine? covers y i = none ∧ ((i : Int) < y ∨ y + covers.length ≤ i) ∨
      ∃ j : Nat, (i : Int) = y + j ∧ j < covers.length ∧ coveringLine? covers y i = covers[j]? := by
  rw [coveringLine?]
  split
  · next hlt => exact .inl ⟨rfl, .inl hlt⟩
  · next hle =>
    by_cases hj : ((i : Int) - y).toNat < covers.length
    · exact .inr ⟨_, by omega, hj, rfl⟩
    · exact .inl ⟨List.getElem?_eq_none (by omega), .inr (by omega)⟩

section

variable {ls covers : List Bytes} {x : Nat} {y : Int}

theorem length_overlayLines (ls covers : List Bytes) (x y : Int) : (overlayLines ls covers x y).length = ls.length := by
  simp [overlayLines]

theorem overlayLines_outside {x y : Int} {i : Nat} (h : (i : Int) < y ∨ y + covers.length ≤ i) :
    (overlayLines ls covers x y)[i]? = ls[i]? := by
  have hnone : coveringLine? covers y i = none := by
    rcases coveringLine?_eq covers y i with ⟨hnone, -⟩ | ⟨j, hj, hlt, -⟩
    · exact hnone
    · omega
  simp only [overlayLines, List.getElem?_map, List.getElem?_zipIdx]
  cases ls[i]? <;> simp [hnone]

theorem overlayLines_inside {x y : Int} {i j : Nat} {strip : Bytes} (hi : (i : Int) = y + j)
    (hstrip : covers[j]? = some strip) :
    (overlayLines ls covers x y)[i]? = ls[i]?.map fun line => spliceLine line strip x := by
  have hsome : coveringLine? covers y i = some strip := by
    have hj : ((i : Int) - y).toNat = j := by omega
    rw [coveringLine?, if_neg (by omega), hj, hstrip]
  simp only [overlayLines, List.getElem?_map, List.getElem?_zipIdx]
  cases ls[i]? <;> simp [hsome]

theorem mem_overlayLines {l : Bytes} {x y : Int} (h : l ∈ overlayLines ls covers x y) :
    l ∈ ls ∨ ∃ line ∈ ls, ∃ strip ∈ covers, l = spliceLine line strip x := by
  obtain ⟨i, hi⟩ := List.getElem?_of_mem h
  rcases coveringLine?_eq covers y i with ⟨-, hout⟩ | ⟨j, hj, hlt, -⟩
  · rw [overlayLines_outside hout] at hi
    exact .inl (List.mem_of_getElem? hi)
  · rw [overlayLines_inside hj (List.getElem?_eq_getElem hlt)] at hi
    obtain ⟨line, hline, rfl⟩ := Option.map_eq_some_iff.mp hi
    exact .inr ⟨line, List.mem_of_getElem? hline, _, List.getElem_mem hlt, rfl⟩

theorem overlayLines_plain (hls : ∀ l ∈ ls, PlainLine l) (hcovers : ∀ l ∈ covers, PlainLine l) :
    ∀ l ∈ overlayLines ls covers x y, PlainLine l := by
  intro l hl
  rcases mem_overlayLines hl with hl | ⟨line, hline, strip, hstrip, rfl⟩
  · exact hls l hl
  · exact ((hls line hline).splice (hcovers strip hstrip) x).1

theorem overlayLines_overlayLines (hls : ∀ l ∈ ls, PlainLine l) (hcovers : ∀ l ∈ covers, PlainLine l) :
    overlayLines (overlayLines ls covers x y) covers x y = overlayLines ls covers x y := by
  apply List.ext_getElem?
  intro i
  rcases coveringLine?_eq covers y i with ⟨-, hout⟩ | ⟨j, hj, hlt, -⟩
  · exact overlayLines_outside hout
  · have hstrip := List.getElem?_eq_getElem hlt
    rw [overlayLines_inside hj hstrip, overlayLines_inside hj hstrip, Option.map_map]
    cases hline : ls[i]? with
    | none => rfl
    | some line =>
      have hplain := hls line (List.mem_of_getElem? hline)
      exact congrArg some (hplain.splice (hcovers _ (List.getElem_mem hlt)) x).2

end

theorem lines_overlayAt {text cover : Bytes} (ht : PlainText text) (hc : PlainText cover) (x : Nat) (y : Int) :
    lines (overlayAt text cover x y) = overlayLines (lines text) (lines cover) x y := by
  rw [overlayAt, Bytes.lines_unlines]
  · intro hnil
    have hlength := congrArg List.length hnil
    rw [length_overlayLines, List.length_nil, List.length_eq_zero_iff] at hlength
    exact Bytes.lines_ne_nil text hlength
  · exact fun l hl => (overlayLines_plain ht hc l hl).newline_notMem

/-- The picture of a text with an overlay whose corner is at column `x` of line `y`. -/
structure Overlaid (text cover : Bytes) (x : Nat) (y : Int) (picture : Bytes) : Prop where
  plain : PlainText picture
  count : (lines picture).length = (lines text).length
  outside : ∀ i : Nat, (i : Int) < y ∨ y + (lines cover).length ≤ i → (lines picture)[i]? = (lines text)[i]?
  inside : ∀ (i j : Nat) (line strip : Bytes), (i : Int) = y + j → (lines text)[i]? = some line →
    (lines cover)[j]? = some strip →
      ∃ line', (lines picture)[i]? = some line' ∧ ∀ k, (columns line')[k]? = covered line strip x k

/-- An overlay takes its rectangle and nothing else, and drawn again it changes nothing. -/
theorem overlaid_overlayAt (text cover : Bytes) (ht : PlainText text) (hc : PlainText cover) (x : Nat) (y : Int) :
    Overlaid text cover x y (overlayAt text cover x y) ∧
      overlayAt (overlayAt text cover x y) cover x y = overlayAt text cover x y := by
  have hlines := lines_overlayAt ht hc x y
  refine ⟨⟨?_, ?_, fun i hi => ?_, fun i j line strip hi hline hstrip => ?_⟩, ?_⟩
  · rw [PlainText, hlines]
    exact overlayLines_plain ht hc
  · rw [hlines, length_overlayLines]
  · rw [hlines, overlayLines_outside hi]
  · rw [hlines, overlayLines_inside hi hstrip, hline]
    have hplain := ht line (List.mem_of_getElem? hline)
    exact ⟨_, rfl, columns_splice hplain (hc strip (List.mem_of_getElem? hstrip)) x⟩
  · rw [overlayAt, hlines, overlayLines_overlayLines ht hc, ← overlayAt]

theorem plainText_of_strings {ss : List String} (hne : ss ≠ []) (h : ss.all (·.toList.all (Single ·))) :
    PlainText (unlines (ss.map Bytes.ofString)) := by
  have hplain : ∀ l ∈ ss.map Bytes.ofString, PlainLine l := List.forall_mem_map.mpr fun s hs =>
    ⟨s.toList, rfl, fun c hc => of_decide_eq_true (List.all_eq_true.mp (List.all_eq_true.mp h s hs) c hc)⟩
  rw [PlainText, Bytes.lines_unlines (by simpa using hne) fun l hl => (hplain l hl).newline_notMem]
  exact hplain

def background : List String := ["ab", "", "àéîõü──"]

def patch : List String := ["above", "X┼", ""]

theorem overlaid_patch :
    let text := unlines (background.map Bytes.ofString)
    let cover := unlines (patch.map Bytes.ofString)
    PlainText text ∧ PlainText cover ∧ Overlaid text cover 3 (-1) (overlayAt text cover (3 : Nat) (-1)) ∧
      overlayAt (overlayAt text cover (3 : Nat) (-1)) cover (3 : Nat) (-1) = overlayAt text cover (3 : Nat) (-1) := by
  have ht : PlainText (unlines (background.map Bytes.ofString)) := plainText_of_strings (by decide) (by decide +kernel)
  have hc : PlainText (unlines (patch.map Bytes.ofString)) := plainText_of_strings (by decide) (by decide +kernel)
  exact ⟨ht, hc, overlaid_overlayAt _ _ ht hc 3 (-1)⟩

end Display

end CircuitDesk
