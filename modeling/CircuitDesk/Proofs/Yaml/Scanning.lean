import CircuitDesk.Proofs.Yaml.Words

/-!
What a scanner does with an entry of a mapping: it takes the first word as one that may turn out to be a key, the colon
makes a key of it and opens the mapping in front of the first one, and the value ends at the first word of the next
line.
-/
namespace CircuitDesk.Yaml

open Scanner (isMark noKey orderMarkChar)

namespace Scanner

theorem nextPlace_cons {c : Char} (hc : c ≠ '\r') (tabs fresh broken : Bool) (index line column : Nat)
    (rest : List Char) : nextPlace false false tabs false fresh broken index line column (c :: rest) =
      if fresh && isPassedMark false c rest then
        nextPlace false false tabs false false broken (index + 1) line (column + 1) rest
      else if isBreak c then nextPlace false false false false true true (index + 1) (line + 1) 0 rest
      else if false || c = ' ' || (tabs && c = '\t') then
        nextPlace false false tabs false false broken (index + 1) line (column + 1) rest
      else if c = '#' then nextPlace false false tabs true false broken (index + 1) line (column + 1) rest
      else (⟨c :: rest, index, line, column⟩, broken) :=
  nextPlace.eq_3 _ _ _ _ _ _ _ _ _ _ _ fun _ h _ => hc h

theorem isPassedMark_eq_false {c : Char} (hc : c ≠ orderMarkChar) (rest : List Char) :
    isPassedMark false c rest = false := by
  simp [isPassedMark, hc]

theorem nextPlace_stop {cs : List Char} (hcs : StartsWord cs) (tabs fresh broken : Bool) (index line column : Nat) :
    nextPlace false false tabs false fresh broken index line column cs = (⟨cs, index, line, column⟩, broken) := by
  cases cs with
  | nil => rw [nextPlace]
  | cons c cs =>
    have hc := hcs c rfl
    have hspace : c ≠ ' ' := ne_of_isBlank hc rfl
    have htab : c ≠ '\t' := ne_of_isBlank hc rfl
    have hcomment : c ≠ '#' := ne_of_isMark hc rfl
    rw [nextPlace_cons (ne_of_isBreak hc rfl), isPassedMark_eq_false (ne_orderMark_of_isWordChar hc)]
    simp only [isBreak_of_isWordChar hc, hspace, htab, hcomment, decide_false, Bool.and_false, Bool.or_self,
      Bool.false_eq_true, if_false]

theorem nextPlace_spaces {cs : List Char} (hcs : StartsWord cs) (tabs fresh broken : Bool) (index line column j : Nat) :
    nextPlace false false tabs false fresh broken index line column (List.replicate j ' ' ++ cs) =
      (⟨cs, index + j, line, column + j⟩, broken) := by
  induction j generalizing fresh index column with
  | zero => exact nextPlace_stop hcs tabs fresh broken index line column
  | succ j ih =>
    rw [List.replicate_succ, List.cons_append, nextPlace_cons (by decide), isPassedMark_eq_false (by decide)]
    simp only [show isBreak ' ' = false from rfl, Bool.and_false, Bool.false_eq_true, if_false, decide_true,
      Bool.or_true, Bool.true_or, if_true, ih]
    rw [Nat.add_right_comm index, Nat.add_right_comm column]
    rfl

theorem nextPlace_newline {cs : List Char} (hcs : StartsWord cs) (tabs fresh broken : Bool)
    (index line column j : Nat) :
    nextPlace false false tabs false fresh broken index line column ('\n' :: (List.replicate j ' ' ++ cs)) =
      (⟨cs, index + 1 + j, line + 1, j⟩, true) := by
  rw [nextPlace_cons (by decide), isPassedMark_eq_false (by decide), Bool.and_false, if_neg (by decide),
    if_pos (show isBreak '\n' from rfl), nextPlace_spaces hcs, Nat.zero_add]

/-- A scanner outside of brackets that has given out all it has read; `k` can be no key any more. -/
def resting (c : Cursor) (given : Nat) (indent : Int) (outer : List Int) (allowed : Bool) (k : PossibleKey) : Scanner :=
  ⟨c, [], given, indent, outer, allowed, 0, [k], [], false, none⟩

/-- A scanner outside of brackets with a word that started at an index and a column of its line. The word is a key if a
colon comes next. -/
def holding (c : Cursor) (t : Token) (given : Nat) (indent : Int) (outer : List Int) (required : Bool)
    (index column : Nat) : Scanner :=
  ⟨c, [t], given, indent, outer, false, 0, [⟨true, required, given, index, c.line, column⟩], [(given, 0)], false, none⟩

theorem fetchAt_word {s : Scanner} (hdepth : s.depth = 0) {c : Char} {w rest : List Char} (hw : IsWord (c :: w))
    (hrest : s.cursor.rest = c :: (w ++ rest)) : s.fetchAt c = s.fetchPlain := by
  have hc := hw.chars c List.mem_cons_self
  have hmarker (mark : Char) (hmark : isMark mark ∨ mark = '.') : s.cursor.hasMarker mark = false := by
    have h := hw.hasMarker_eq_false mark hmark rest s.cursor.index s.cursor.line s.cursor.column
    rwa [List.cons_append, ← hrest] at h
  have hflow : s.inFlow = false := by simp [inFlow, hdepth]
  have hplain : s.startsPlain c := by
    simp [startsPlain, isBlank_of_isWordChar hc, isBreak_of_isWordChar hc, isMark_of_isWordChar hc]
  have hmark := isMark_of_isWordChar hc
  simp only [isMark, Bool.or_eq_false_iff, decide_eq_false_iff_not] at hmark
  simp only [fetchAt, hmarker '-' (.inl rfl), hmarker '.' (.inr rfl), hmark, hplain, decide_false, Bool.false_and,
    Bool.or_self, Bool.false_eq_true, if_false, if_true]

theorem fetchAt_colon {s : Scanner} (hdepth : s.depth = 0) {rest : List Char} (hrest : s.cursor.rest = ':' :: rest)
    (hends : endsWord rest.head?) : s.fetchAt ':' = s.fetchValue := by
  have hflow : s.inFlow = false := by simp [inFlow, hdepth]
  have hnext : s.cursor.next? = rest.head? := by
    rw [Cursor.next?, hrest]
    cases rest <;> rfl
  have hmarker {mark : Char} (hmark : ':' ≠ mark) : s.cursor.hasMarker mark = false := by
    simp [Cursor.hasMarker, hrest, hmark]
  simp only [fetchAt, hmarker (show ':' ≠ '-' by decide), hmarker (show ':' ≠ '.' by decide), hflow, hnext, hends]
  rfl

theorem unroll_eq_self {s : Scanner} {column : Int} (h : s.indent ≤ column) : s.unroll column = s := by
  rw [unroll]
  split
  · rfl
  · cases houter : s.outer with
    | nil => rw [closeBlocks]
    | cons i outer => rw [closeBlocks, if_pos h]

theorem fetch_eq {s t : Scanner} (hreadable : s.unreadable = none) (hnext : s.toNextToken = t)
    (hindent : t.indent ≤ t.cursor.column) {c : Char} (hpeek : t.cursor.peek? = some c) : s.fetch = t.fetchAt c := by
  have hsame : t.unreadable = none := by rw [← hnext, ← hreadable, toNextToken]
  simp only [fetch, hnext, hsame, fetchHere, unroll_eq_self hindent, hpeek]

theorem toNextToken_resting {c place : Cursor} {allowed broken : Bool}
    (h : ∀ fresh, nextPlace false false (!allowed) false fresh false c.index c.line c.column c.rest = (place, broken))
    (given : Nat) (indent : Int) (outer : List Int) (k : PossibleKey) :
    (resting c given indent outer allowed k).toNextToken = resting place given indent outer (allowed || broken) k := by
  simp only [toNextToken, resting, inFlow, Nat.lt_irrefl, decide_false, Bool.false_or, h, Bool.not_false, Bool.and_true]

theorem fetch_key {w rest : List Char} (hw : IsWord w) (hrest : endsWord rest.head?) {indent : Int} {column : Nat}
    (hindent : indent ≤ column) {k : PossibleKey} (hk : k.possible = false) (index line given : Nat)
    (outer : List Int) : (resting ⟨w ++ ':' :: rest, index, line, column⟩ given indent outer true k).fetch =
      .ok (holding ⟨':' :: rest, index + w.length, line, column + w.length⟩ ⟨line, .scalar (Bytes.ofChars w) true⟩ given
        indent outer (indent = column) index column) := by
  have hscalar := plainScalar_key hw hrest (indent + 1).toNat index line column
  have hnext : (resting ⟨w ++ ':' :: rest, index, line, column⟩ given indent outer true k).toNextToken =
      resting ⟨w ++ ':' :: rest, index, line, column⟩ given indent outer true k :=
    toNextToken_resting (fun fresh => nextPlace_stop (hw.startsWord _) _ fresh false _ _ _) given indent outer k
  obtain ⟨c, w, rfl⟩ := List.exists_cons_of_ne_nil hw.ne_nil
  rw [fetch_eq rfl hnext hindent rfl, fetchAt_word rfl hw rfl, fetchPlain]
  have hsave : (resting ⟨c :: w ++ ':' :: rest, index, line, column⟩ given indent outer true k).saveKey =
      .ok ⟨⟨c :: w ++ ':' :: rest, index, line, column⟩, [], given, indent, outer, true, 0,
        [⟨true, indent = column, given, index, line, column⟩], [(given, 0)], false, none⟩ := by
    simp only [saveKey, removeKey, resting, latestKey, List.headD_cons, hk]
    rfl
  rw [hsave]
  show ((plainScalar false (indent + 1).toNat ⟨c :: w ++ ':' :: rest, index, line, column⟩).bind fun e => _) = _
  rw [hscalar]
  rfl

section Colon

variable {rest : List Char} (c : Cursor) (t : Token) (given : Nat) {indent : Int} (outer : List Int) (required : Bool)
  {index column : Nat}

theorem fetch_colon (hc : c.rest = ':' :: rest) (hrest : endsWord rest.head?) (hindent : indent ≤ c.column) :
    (holding c t given indent outer required index column).fetch =
      (holding c t given indent outer required index column).fetchValue := by
  have hnext : (holding c t given indent outer required index column).toNextToken =
      holding c t given indent outer required index column := by
    obtain ⟨cs, i, line, col⟩ := c
    subst hc
    simp only [toNextToken, holding, inFlow, Nat.lt_irrefl, decide_false,
      nextPlace_cons (show ':' ≠ '\r' by decide), isPassedMark_eq_false (show ':' ≠ orderMarkChar by decide)]
    simp [show isBreak ':' = false from rfl]
  have hpeek : c.peek? = some ':' := by rw [Cursor.peek?, hc, List.head?_cons]
  rw [fetch_eq rfl hnext hindent hpeek, fetchAt_colon rfl hc hrest]

theorem isStillPossible_holding (hnear : c.index ≤ index + keyLength) :
    (holding c t given indent outer required index column).isStillPossible
      ⟨true, required, given, index, c.line, column⟩ = .ok true := by
  have hfar : ¬ index + keyLength < c.index := Nat.not_lt.mpr hnear
  simp [isStillPossible, holding, hfar]

theorem insertAt_given (s : Scanner) (line : Nat) (kind : TokenKind) :
    s.insertAt s.given line kind = { s with queue := ⟨line, kind⟩ :: s.queue } := by
  simp [insertAt]

theorem insertAt_holding (kind : TokenKind) :
    (holding c t given indent outer required index column).insertAt given c.line kind =
      { holding c t given indent outer required index column with queue := [⟨c.line, kind⟩, t] } :=
  insertAt_given (holding c t given indent outer required index column) c.line kind

theorem fetchValue_next (hnear : c.index ≤ index + keyLength) (hcolumn : column ≤ indent) :
    (holding c t given indent outer required index column).fetchValue =
      .ok ⟨c.skip 1, [⟨c.line, .key⟩, t, ⟨c.line, .value⟩], given, indent, outer, false, 0,
        [⟨false, required, given, index, c.line, column⟩], [], false, none⟩ := by
  have hlatest : (holding c t given indent outer required index column).latestKey =
    ⟨true, required, given, index, c.line, column⟩ := rfl
  have hroll (s : Scanner) (hs : s.indent = indent) (line : Nat) (kind : TokenKind) :
      s.roll column given line kind = .ok s := by
    rw [roll, hs, decide_eq_true hcolumn, Bool.or_true, if_pos rfl]
  rw [fetchValue, hlatest, isStillPossible_holding c t given outer required hnear]
  simp only [bind, Except.bind, if_true, insertAt_holding]
  rw [hroll _ rfl]
  simp [holding, take, push, move, setLatestKey, stopWaiting, pure, Except.pure]

theorem fetchValue_first (hnear : c.index ≤ index + keyLength) (hcolumn : indent < column)
    (houter : outer.length < maxDepth) :
    (holding c t given indent outer required index column).fetchValue =
      .ok ⟨c.skip 1, [⟨c.line, .blockMappingStart⟩, ⟨c.line, .key⟩, t, ⟨c.line, .value⟩], given, column,
        indent :: outer, false, 0, [⟨false, required, given, index, c.line, column⟩], [], false, none⟩ := by
  have hlatest : (holding c t given indent outer required index column).latestKey =
    ⟨true, required, given, index, c.line, column⟩ := rfl
  have hroll (s : Scanner) (hdepth : s.depth = 0) (hs : s.indent = indent) (hs' : s.outer = outer)
      (hgiven : s.given = given) (line : Nat) (kind : TokenKind) : s.roll column given line kind =
        .ok { s with indent := column, outer := indent :: outer, queue := ⟨line, kind⟩ :: s.queue } := by
    have hroom : ¬ maxDepth < outer.length + 1 := by omega
    have hclosed : ¬ (column : Int) ≤ indent := by omega
    subst hgiven
    simp [roll, inFlow, hdepth, hs, hs', hclosed, hroom, insertAt]
  rw [fetchValue, hlatest, isStillPossible_holding c t given outer required hnear]
  simp only [bind, Except.bind, if_true, insertAt_holding]
  rw [hroll _ rfl rfl rfl rfl]
  simp [holding, take, push, move, setLatestKey, stopWaiting, pure, Except.pure]

end Colon

theorem fetch_value {w rest : List Char} (hw : IsWord w) (hrest : StartsWord rest) {indent : Int} {column j : Nat}
    (hindent : indent ≤ column) (hj : j < (indent + 1).toNat) (index line given : Nat) (outer : List Int)
    (k : PossibleKey) :
    (resting ⟨' ' :: (w ++ '\n' :: (List.replicate j ' ' ++ rest)), index, line, column⟩ given indent outer false
      k).fetch = .ok { resting ⟨rest, index + 1 + w.length + 1 + j, line + 1, j⟩ given indent outer true k with
        queue := [⟨line, .scalar (Bytes.ofChars w) true⟩] } := by
  have hscalar := plainScalar_value hw hrest hj (index + 1) line (column + 1)
  have hstarts := hw.startsWord ('\n' :: (List.replicate j ' ' ++ rest))
  have hnext : (resting ⟨' ' :: (w ++ '\n' :: (List.replicate j ' ' ++ rest)), index, line, column⟩ given indent outer
      false k).toNextToken = resting ⟨w ++ '\n' :: (List.replicate j ' ' ++ rest), index + 1, line, column + 1⟩ given
        indent outer false k :=
    toNextToken_resting (fun fresh => nextPlace_spaces hstarts _ fresh false index line column 1) given indent outer k
  obtain ⟨c, w, rfl⟩ := List.exists_cons_of_ne_nil hw.ne_nil
  have hindent' : indent ≤ (column + 1 : Nat) := by omega
  rw [fetch_eq rfl hnext hindent' rfl, fetchAt_word rfl hw rfl, fetchPlain]
  have hsave (cursor : Cursor) : (resting cursor given indent outer false k).saveKey =
      .ok (resting cursor given indent outer false k) := rfl
  rw [hsave]
  show ((plainScalar false (indent + 1).toNat
    ⟨c :: w ++ '\n' :: (List.replicate j ' ' ++ rest), index + 1, line, column + 1⟩).bind fun e => _) = _
  rw [hscalar]
  rfl

theorem fetch_end {s t : Scanner} (hreadable : s.unreadable = none) (hnext : s.toNextToken = s)
    (hclose : s.unroll s.cursor.column = t) (hpeek : t.cursor.peek? = none) : s.fetch = t.fetchEnd := by
  simp only [fetch, hnext, hreadable, fetchHere, hclose, hpeek]

end Scanner

end CircuitDesk.Yaml
