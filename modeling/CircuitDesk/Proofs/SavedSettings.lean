import CircuitDesk.Proofs.Durations
import CircuitDesk.Proofs.Files
import CircuitDesk.Proofs.Yaml.Mappings
import CircuitDesk.Proofs.Yaml.Values
import CircuitDesk.Settings

namespace CircuitDesk

namespace Duration

open Yaml (IsPlain isPlain_ofString isPlain_of_allDigits)

theorem isPlain_fractionText (places n : Nat) : IsPlain (fractionText places n) := by
  have hdigits := allDigits_stripped (Bytes.allDigits_zeroPadded places n)
  show IsPlain (pointed (stripped (Bytes.zeroPadded places n)))
  unfold pointed
  split
  · exact ⟨[], rfl, by simp⟩
  · exact (isPlain_ofString "." (by decide)).append (isPlain_of_allDigits hdigits)

theorem isPlain_inUnits (places n : Nat) : IsPlain (inUnits places n) := by
  apply (isPlain_of_allDigits (Bytes.allDigits_ofNat _)).append
  split
  · exact ⟨[], rfl, by simp⟩
  · exact isPlain_fractionText _ _

theorem isPlain_magnitudeText (n : Nat) : IsPlain (magnitudeText n) := by
  have hnumber (n : Nat) : IsPlain (Bytes.ofNat n) := isPlain_of_allDigits (Bytes.allDigits_ofNat n)
  have hseconds (n : Nat) : IsPlain (inUnits 9 n ++ Bytes.ofString "s") :=
    (isPlain_inUnits 9 n).append (isPlain_ofString "s" (by decide))
  have hminutes := isPlain_ofString "m" (by decide)
  have hhours := isPlain_ofString "h" (by decide)
  simp only [magnitudeText]
  split
  · exact isPlain_ofString "0s" (by decide)
  · split
    · exact (isPlain_inUnits 0 n).append (isPlain_ofString "ns" (by decide))
    · split
      · exact (isPlain_inUnits 3 n).append (isPlain_ofString "µs" (by decide))
      · split
        · exact (isPlain_inUnits 6 n).append (isPlain_ofString "ms" (by decide))
        · split
          · exact hseconds _
          · split
            · exact ((hnumber _).append hminutes).append (hseconds _)
            · exact ((((hnumber _).append hhours).append (hnumber _)).append hminutes).append (hseconds _)

theorem exists_word_text {d : Duration} (h : 0 ≤ d.nanoseconds) : ∃ w, Yaml.IsWord w ∧ Bytes.ofChars w = d.text := by
  obtain ⟨b, rest, hcons, hb⟩ := exists_text_cons h
  have hplain : IsPlain d.text := by
    rw [text_of_nonneg h]
    exact isPlain_magnitudeText _
  apply hplain.exists_word
  · simp [hcons]
  · rw [hcons, List.head?_cons, ne_eq, Option.some.injEq]
    exact Bytes.isDigit_ne hb rfl

end Duration

namespace Settings

open Yaml (Document Node Value)

/-- Progress without issues, in which no part stood behind a reference. -/
structure Progress.IsClean {α : Type} (p : Progress α) (a : α) : Prop where
  value : p.value = a
  issues : p.issues = []
  expansion : p.expansion.referred = 0

/-- A field whose value stands behind no reference is read without issues, and its group changes from `a` to `b`. -/
def Reads {α : Type} (f : FieldReader α) (n : Node) (a b : α) : Prop :=
  ∀ p : Progress α, p.IsClean a → ∃ q, f [] n p = .ok q ∧ q.IsClean b

section Fields

variable {α : Type} {p : Progress α} {a : α}

theorem Progress.IsClean.count (h : p.IsClean a) : ∃ q, p.count false = .ok q ∧ q.IsClean a := by
  have hfew : (⟨p.expansion.parts + 1, p.expansion.referred⟩ : Yaml.Expansion).isExcessive = false := by
    simp [Yaml.Expansion.isExcessive, h.expansion]
  refine ⟨{ p with expansion := ⟨p.expansion.parts + 1, p.expansion.referred⟩ }, ?_, h.value, h.issues, h.expansion⟩
  rw [Progress.count, Yaml.Expansion.count]
  simp only [Bool.false_eq_true, if_false, hfew]
  rfl

theorem Progress.IsClean.visit (h : p.IsClean a) {n : Node} (hn : n.isReference = false) :
    ∃ q, p.visit [] n = .ok q ∧ q.IsClean a := by
  obtain ⟨q, hcount, hq⟩ := h.count
  refine ⟨q, ?_, hq⟩
  have hnone : decide (([] : List Nat) ≠ []) = false := rfl
  rw [Progress.visit, hnone, hcount, hn]
  rfl

theorem Progress.IsClean.set (h : p.IsClean a) (n : Node) (wanted : Wanted) {β : Type} (b : β) (f : α → β → α) :
    (p.set n wanted (some b) f).IsClean (f a b) :=
  ⟨by rw [← h.value]; rfl, h.issues, h.expansion⟩

theorem reads_scalarField {β : Type} (d : Document) (wanted : Wanted) {read : Value → Option β} (set : α → β → α)
    {w : List Char} {b : β} (hread : read (Value.ofWord true (Bytes.ofChars w)) = some b) (line : Nat) (a : α) :
    Reads (scalarField d wanted read set) (.word line w) a (set a b) := by
  intro p hp
  obtain ⟨q, hvisit, hq⟩ := hp.visit (n := .word line w) rfl
  refine ⟨q.set (.word line w) wanted (some b) set, ?_, hq.set _ _ _ _⟩
  have hvalue : scalarValue (.word line w) = .ok (some (Value.ofWord true (Bytes.ofChars w))) := rfl
  show ((p.visit [] (.word line w)).bind fun p => (scalarValue (.word line w)).bind fun v => _) = _
  rw [hvisit, hvalue, ← hread]
  rfl

theorem textOf_digit {w : List Char} {b : UInt8} {rest : Bytes} (hw : Bytes.ofChars w = b :: rest)
    (hb : Bytes.isDigit b) (line : Nat) : textOf (.word line w) = .ok (some (Bytes.ofChars w)) := by
  have hvalue : Value.ofScalar [] true (Bytes.ofChars w) = .ok (Value.ofWord true (b :: rest)) := by
    rw [hw]
    rfl
  rw [Node.word, textOf, hvalue]
  rcases Value.ofWord_digit_cases hb true rest with h | ⟨n, h⟩ | ⟨x, h⟩ | h <;> rw [h, hw] <;> rfl

theorem reads_durationField (d : Document) (set : α → Duration → α) {w : List Char} {t : Duration}
    (ht : 0 ≤ t.nanoseconds) (hw : Bytes.ofChars w = t.text) (line : Nat) (a : α) :
    Reads (durationField d set) (.word line w) a (set a t) := by
  intro p hp
  obtain ⟨b, rest, hcons, hb⟩ := Duration.exists_text_cons ht
  obtain ⟨q, hvisit, hq⟩ := hp.visit (n := .word line w) rfl
  obtain ⟨q', hcount, hq'⟩ := hq.count
  refine ⟨q'.set (.word line w) .duration (some t) set, ?_, hq'.set _ _ _ _⟩
  have hsome : isNothing (.word line w) = false := by
    have hwords : [Bytes.ofString "null", Bytes.ofString "~", []].all fun w => !w.head?.any Bytes.isDigit := by decide
    have hne := Value.ne_of_isDigit hwords hb rest
    rw [← hcons, ← hw] at hne
    simp only [List.forall_mem_cons] at hne
    simp [isNothing, Node.word, Ne.symm hne.1, Ne.symm hne.2.1, Ne.symm hne.2.2.1, show [] ≠ Yaml.nullTag by decide]
  have hduration : durationOf (.word line w) = .ok (some t) := by
    rw [durationOf, hsome, if_neg (by simp), textOf_digit (hw.trans hcons) hb, hw]
    simp only [Duration.parse_text ht]
  have htarget : target d (.word line w) = .word line w := rfl
  have halone : (decide (([] : List Nat) ≠ []) || Node.isReference (.word line w)) = false := rfl
  simp only [durationField, bind, Except.bind, hvisit, htarget, hsome, halone]
  simp [hcount, Except.mapError, hduration, pure, Except.pure]

/-- Words that are names: they mean nothing but their text and merge nothing. -/
structure IsKey (key : List Char) : Prop where
  word : Yaml.IsWord key
  near : key.length ≤ Yaml.Scanner.keyLength
  text : Value.ofWord true (Bytes.ofChars key) = .text (Bytes.ofChars key)
  merge : Bytes.ofChars key ≠ Bytes.ofString "<<"

/-- Entries of different fields take a group from `a` to `b`, a field after the other; `seen` were set before them. -/
inductive ReadsAll (g : Group α) : (seen : List Bytes) → List (Node × Node) → (a b : α) → Prop
  | nil {seen : List Bytes} {a : α} : ReadsAll g seen [] a a
  | cons {seen : List Bytes} {key : List Char} {f : FieldReader α} {line : Nat} {n : Node} {rest : List (Node × Node)}
      {a b c : α} (hkey : IsKey key) (hnew : Bytes.ofChars key ∉ seen)
      (hfield : g.fields.lookup (Bytes.ofChars key) = some f) (hreads : Reads f n a b)
      (hrest : ReadsAll g (Bytes.ofChars key :: seen) rest b c) : ReadsAll g seen ((.word line key, n) :: rest) a c

theorem readEntries_cons {g : Group α} {d : Document} {key : List Char} (hkey : IsKey key) {seen : List Bytes}
    (hnew : Bytes.ofChars key ∉ seen) {f : FieldReader α} (hfield : g.fields.lookup (Bytes.ofChars key) = some f)
    {n : Node} {b : α} (hreads : Reads f n a b) (h : p.IsClean a) (line fuel : Nat) (rest : List (Node × Node)) :
    ∃ q, q.IsClean b ∧ g.readEntries d (fuel + 1) [] seen ((.word line key, n) :: rest) p =
      g.readEntries d fuel [] (Bytes.ofChars key :: seen) rest q := by
  obtain ⟨q, hvisit, hq⟩ := h.visit (n := .word line key) rfl
  obtain ⟨q', hread, hq'⟩ := hreads q hq
  refine ⟨q', hq', ?_⟩
  have hplain : Group.isMerge (.word line key) = false := by simp [Group.isMerge, Node.word, hkey.merge]
  have htext : textOf (.word line key) = .ok (some (Bytes.ofChars key)) := by
    have hvalue : Value.ofScalar [] true (Bytes.ofChars key) = .ok (.text (Bytes.ofChars key)) := by
      rw [← hkey.text]
      rfl
    rw [Node.word, textOf, hvalue]
    rfl
  have htarget : target d (.word line key) = .word line key := rfl
  have hunseen : seen.any (· = Bytes.ofChars key) = false := by
    rw [List.any_eq_false]
    intro s hs heq
    exact hnew (of_decide_eq_true heq ▸ hs)
  rw [Group.readEntries, hplain]
  simp only [bind, Except.bind, hvisit, htarget, htext, Except.mapError, hfield, hunseen, Bool.false_eq_true, if_false,
    hread]

theorem ReadsAll.readEntries {g : Group α} {seen : List Bytes} {entries : List (Node × Node)} {b : α}
    (hall : ReadsAll g seen entries a b) (d : Document) (h : p.IsClean a) (fuel : Nat) :
    ∃ q, q.IsClean b ∧ g.readEntries d (fuel + entries.length) [] seen entries p = .ok q := by
  induction hall generalizing p with
  | nil => exact ⟨p, h, by cases fuel <;> rfl⟩
  | cons hkey hnew hfield hreads _ ih =>
    obtain ⟨q, hq, hfirst⟩ := readEntries_cons hkey hnew hfield hreads h _ _ _
    obtain ⟨q', hq', hlater⟩ := ih hq
    exact ⟨q', hq', hfirst.trans hlater⟩

theorem ReadsAll.read {g : Group α} {entries : List (Node × Node)} {b : α} (hall : ReadsAll g [] entries a b)
    (d : Document) (h : p.IsClean a) (line : Nat) {fuel : Nat} (hfuel : entries.length < fuel) :
    ∃ q, q.IsClean b ∧ g.read d fuel [] (.mapping line entries) p = .ok q := by
  obtain ⟨n, rfl⟩ : ∃ n, fuel = n + entries.length + 1 := ⟨fuel - entries.length - 1, by omega⟩
  obtain ⟨q, hcount, hq⟩ := h.count
  obtain ⟨q', hq', hentries⟩ := hall.readEntries d hq n
  refine ⟨q', hq', ?_⟩
  have hnone : decide (([] : List Nat) ≠ []) = false := rfl
  rw [Group.read, hnone, hcount, ← hentries]
  rfl

end Fields

def boolWord (b : Bool) : List Char := if b then ['t', 'r', 'u', 'e'] else ['f', 'a', 'l', 's', 'e']

theorem isWord_boolWord (b : Bool) : Yaml.IsWord (boolWord b) := by
  cases b <;> exact ⟨by decide, List.all_eq_true.mp (by decide), by decide⟩

theorem ofChars_boolWord (b : Bool) : Bytes.ofChars (boolWord b) = boolText b := by
  cases b <;> rfl

theorem boolOf?_boolWord (b : Bool) : boolOf? (Value.ofWord true (Bytes.ofChars (boolWord b))) = some b := by
  cases b <;> decide +kernel

theorem exists_word_ofInt64 {i : Int64} (hi : 0 ≤ i) : ∃ w, Yaml.IsWord w ∧ Bytes.ofChars w = Bytes.ofInt64 i ∧
    intOf? (Value.ofWord true (Bytes.ofChars w)) = some i := by
  have hnonneg : 0 ≤ i.toInt := Int64.le_iff_toInt_le.mp hi
  have hlt : i.toInt < 2 ^ 63 := i.toInt_lt
  have hbound : i.toInt.toNat < Integer64.bound := by
    rw [Integer64.bound]
    omega
  rw [Bytes.ofInt64_of_nonneg hi]
  obtain ⟨w, hw, htext⟩ := (Yaml.isPlain_of_allDigits (Bytes.allDigits_ofNat i.toInt.toNat)).exists_word
    (Bytes.ofNat_ne_nil _) (Bytes.ofNat_head_ne rfl)
  refine ⟨w, hw, htext, ?_⟩
  rw [htext, Value.ofWord_ofNat hbound, intOf?, if_pos (Int.ofNat_lt.mpr hbound), Int.toNat_of_nonneg hnonneg,
    Int64.ofInt_toInt]

theorem IsKey.isEntry {key : List Char} (hkey : IsKey key) {value : List Char} (hvalue : Yaml.IsWord value) :
    Yaml.IsEntry (key, value) := ⟨hkey.word, hkey.near, hvalue⟩

def fieldNames : List String := ["workers", "timeout", "strictCalls", "debug", "diagram", "maxColumns", "color"]

theorem isKey_of_mem (name : String) (h : name ∈ fieldNames) : IsKey name.toList := by
  have hword : ∀ name ∈ fieldNames, name.toList ≠ [] ∧ name.toList.all Yaml.isWordChar ∧
      name.toList.head? ≠ some '.' ∧ name.toList.length ≤ Yaml.Scanner.keyLength := by decide
  have htext : ∀ name ∈ fieldNames,
      Value.ofWord true (Bytes.ofChars name.toList) = .text (Bytes.ofChars name.toList) ∧
        Bytes.ofChars name.toList ≠ Bytes.ofString "<<" := by decide
  obtain ⟨hne, hchars, hstart, hnear⟩ := hword name h
  obtain ⟨htext, hmerge⟩ := htext name h
  exact ⟨⟨hne, List.all_eq_true.mp hchars, hstart⟩, hnear, htext, hmerge⟩

theorem exists_reads_diagram {d : Document} (hd : 2 < readingBound d) {columns color : List Char} {n : Int64} {b : Bool}
    (hcolumns : intOf? (Value.ofWord true (Bytes.ofChars columns)) = some n)
    (hcolor : boolOf? (Value.ofWord true (Bytes.ofChars color)) = some b) (line : Nat) (s : Settings) :
    ∃ f, (settingsGroup d).fields.lookup (Bytes.ofString "diagram") = some f ∧
      Reads f (.mapping line (Node.entries line [("maxColumns".toList, columns), ("color".toList, color)])) s
        { s with diagram := ⟨n, b⟩ } := by
  have hcolumnsKey := isKey_of_mem "maxColumns" (by decide)
  have hcolorKey := isKey_of_mem "color" (by decide)
  have hnew : Bytes.ofString "color" ∉ [Bytes.ofString "maxColumns"] := by decide
  have hall : ReadsAll (diagramGroup d) []
      (Node.entries line [("maxColumns".toList, columns), ("color".toList, color)]) s.diagram ⟨n, b⟩ :=
    .cons hcolumnsKey List.not_mem_nil rfl (reads_scalarField d .int _ hcolumns _ _)
      (.cons hcolorKey hnew rfl (reads_scalarField d .bool _ hcolor _ _) .nil)
  refine ⟨_, rfl, fun p hp => ?_⟩
  have hinner : ({ p with value := p.value.diagram } : Progress DiagramSettings).IsClean s.diagram :=
    ⟨congrArg diagram hp.value, hp.issues, hp.expansion⟩
  obtain ⟨q, hq, hread⟩ := hall.read d hinner line hd
  refine ⟨{ q with value := { p.value with diagram := q.value } }, ?_, ?_, hq.issues, hq.expansion⟩
  · simp only [hread, bind, Except.bind]
    rfl
  · simp only [hp.value, hq.value]

theorem check_eq_ok {s : Settings} :
    s.check = .ok () ↔ 1 ≤ s.workers ∧ 0 ≤ s.timeout.nanoseconds ∧ 0 ≤ s.diagram.maxColumns := by
  rw [← Int64.not_lt, ← Int64.not_lt, ← Int64.not_lt, check]
  split_ifs <;> simp_all

def entriesBelow (s : Settings) (timeout : List Char) : List Yaml.Entry :=
  [("timeout".toList, timeout), ("strictCalls".toList, boolWord s.strictCalls), ("debug".toList, boolWord s.debug)]

theorem text_eq {s : Settings} {workers timeout columns : List Char}
    (hworkers : Bytes.ofChars workers = Bytes.ofInt64 s.workers) (htimeout : Bytes.ofChars timeout = s.timeout.text)
    (hcolumns : Bytes.ofChars columns = Bytes.ofInt64 s.diagram.maxColumns) :
    s.text = Bytes.ofChars (Yaml.nestedText 2 ("workers".toList, workers) (entriesBelow s timeout) "diagram".toList
      ("maxColumns".toList, columns) [("color".toList, boolWord s.diagram.color)]) := by
  have hbreak : String.utf8EncodeChar '\n' = [Bytes.newline] := rfl
  rw [text, ← hworkers, ← htimeout, ← hcolumns, ← ofChars_boolWord, ← ofChars_boolWord, ← ofChars_boolWord]
  simp [entryText, Yaml.nestedText, Yaml.entriesText, Yaml.linesBelow, entriesBelow, Bytes.ofChars, Bytes.ofString,
    hbreak, List.replicate]

theorem isEntries {s : Settings} {workers timeout : List Char} (hworkers : Yaml.IsWord workers)
    (htimeout : Yaml.IsWord timeout) : ∀ e ∈ ("workers".toList, workers) :: entriesBelow s timeout, Yaml.IsEntry e := by
  simp only [entriesBelow, List.forall_mem_cons]
  exact ⟨(isKey_of_mem "workers" (by decide)).isEntry hworkers, (isKey_of_mem "timeout" (by decide)).isEntry htimeout,
    (isKey_of_mem "strictCalls" (by decide)).isEntry (isWord_boolWord _),
    (isKey_of_mem "debug" (by decide)).isEntry (isWord_boolWord _), by simp⟩

theorem isEntries_diagram {s : Settings} {columns : List Char} (hcolumns : Yaml.IsWord columns) :
    ∀ e ∈ [("maxColumns".toList, columns), ("color".toList, boolWord s.diagram.color)], Yaml.IsEntry e := by
  simp only [List.forall_mem_cons]
  exact ⟨(isKey_of_mem "maxColumns" (by decide)).isEntry hcolumns,
    (isKey_of_mem "color" (by decide)).isEntry (isWord_boolWord _), by simp⟩

theorem exists_ofDocument {s : Settings} {workers timeout columns : List Char}
    (hworkers : intOf? (Value.ofWord true (Bytes.ofChars workers)) = some s.workers)
    (hpositive : 0 ≤ s.timeout.nanoseconds) (htimeout : Bytes.ofChars timeout = s.timeout.text)
    (hcolumns : intOf? (Value.ofWord true (Bytes.ofChars columns)) = some s.diagram.maxColumns) {bound : Nat}
    (hbound : 16 ≤ bound) (base : Settings) : ∃ p : Progress Settings, p.IsClean s ∧
      ofDocument (Yaml.nestedDocument (("workers".toList, workers) :: entriesBelow s timeout) "diagram".toList
        [("maxColumns".toList, columns), ("color".toList, boolWord s.diagram.color)] bound) base = .ok p := by
  obtain ⟨d, hd⟩ : ∃ d, d = Yaml.nestedDocument (("workers".toList, workers) :: entriesBelow s timeout) "diagram".toList
    [("maxColumns".toList, columns), ("color".toList, boolWord s.diagram.color)] bound := ⟨_, rfl⟩
  have hdeep : readingBound d = bound + 1 := by
    rw [hd, readingBound, Yaml.nestedDocument, Nat.zero_add, Nat.one_mul]
  have hworkersKey := isKey_of_mem "workers" (by decide)
  have htimeoutKey := isKey_of_mem "timeout" (by decide)
  have hstrictKey := isKey_of_mem "strictCalls" (by decide)
  have hdebugKey := isKey_of_mem "debug" (by decide)
  have hdiagramKey := isKey_of_mem "diagram" (by decide)
  obtain ⟨f, hfield, hdiagram⟩ := exists_reads_diagram (d := d) (by omega) hcolumns (boolOf?_boolWord s.diagram.color) 5
    { s with diagram := base.diagram }
  have hall : ReadsAll (settingsGroup d) [] [
      (.word 0 "workers".toList, .word 0 workers),
      (.word 1 "timeout".toList, .word 1 timeout),
      (.word 2 "strictCalls".toList, .word 2 (boolWord s.strictCalls)),
      (.word 3 "debug".toList, .word 3 (boolWord s.debug)),
      (.word 4 "diagram".toList, .mapping 5 (Node.entries 5
        [("maxColumns".toList, columns), ("color".toList, boolWord s.diagram.color)]))] base s :=
    .cons hworkersKey List.not_mem_nil rfl (reads_scalarField d .int _ hworkers _ _)
      (.cons htimeoutKey (by decide) rfl (reads_durationField d _ hpositive htimeout _ _)
        (.cons hstrictKey (by decide) rfl (reads_scalarField d .bool _ (boolOf?_boolWord _) _ _)
          (.cons hdebugKey (by decide) rfl (reads_scalarField d .bool _ (boolOf?_boolWord _) _ _)
            (.cons hdiagramKey (by decide) hfield hdiagram .nil))))
  have hstart : (Progress.start base).IsClean base := ⟨rfl, rfl, rfl⟩
  have hroom : 5 < readingBound d := by omega
  obtain ⟨p, hp, hread⟩ := hall.read d hstart 0 hroom
  refine ⟨p, hp, ?_⟩
  rw [← hd, ofDocument, ← hread, hd]
  rfl

theorem ofText_text {s : Settings} (hs : s.check = .ok ()) (base : Settings) : ofText s.text base = .ok s := by
  obtain ⟨hworkers, htimeout, hcolumns⟩ := check_eq_ok.mp hs
  have hpositive := Int64.le_trans (show 0 ≤ 1 by decide) hworkers
  obtain ⟨workers, hworkersWord, hworkersText, hworkersValue⟩ := exists_word_ofInt64 hpositive
  obtain ⟨timeout, htimeoutWord, htimeoutText⟩ := Duration.exists_word_text htimeout
  obtain ⟨columns, hcolumnsWord, hcolumnsText, hcolumnsValue⟩ := exists_word_ofInt64 hcolumns
  have hentries := isEntries (s := s) hworkersWord htimeoutWord
  have hinner := isEntries_diagram (s := s) hcolumnsWord
  have hgroup := isKey_of_mem "diagram" (by decide)
  have hstart := (isKey_of_mem "workers" (by decide)).word.startsWord
  have hcharacters := Yaml.characters_ofChars (Yaml.isAllowed_nestedText 2 hentries hgroup.word hinner) (hstart _)
  rw [← text_eq hworkersText htimeoutText hcolumnsText] at hcharacters
  obtain ⟨bound, hbound, hparse⟩ := Yaml.parse_nestedText (by omega) hentries hgroup.word hgroup.near hinner hcharacters
  obtain ⟨p, hp, hdocument⟩ := exists_ofDocument (s := s) hworkersValue htimeout htimeoutText hcolumnsValue
    (show 16 ≤ bound by omega) base
  rw [ofText, hparse]
  show ((ofDocument _ base).bind fun p => _) = _
  rw [hdocument]
  simp only [Except.bind, hp.issues, hp.value, hs]
  rfl

/-- Settings that pass the check are saved wherever a file can be written, unless the disk fails, and what was saved
loads as it was. -/
theorem load_of_save {s : Settings} (hs : s.check = .ok ()) (fs : Files) (path : Bytes) (base : Settings) :
    ((∃ fs', s.save fs path = .done fs') ↔ fs.IsWritable path ∧ fs.failure? = none) ∧
      ∀ fs', s.save fs path = .done fs' → load fs' path base = .ok s := by
  refine ⟨Files.exists_done_iff s.text, fun fs' hsave => ?_⟩
  have hread := (Files.puts_of_done hsave).2.read
  have hsome : path ≠ [] := by
    rintro rfl
    cases hread
  rw [load, if_neg hsome, hread]
  simp only [ofText_text hs, Except.mapError]

def greatest : Settings := ⟨Int64.maxValue, ⟨Int64.maxValue⟩, true, true, ⟨Int64.maxValue, false⟩⟩

theorem load_of_save_greatest : greatest.check = .ok () ∧
    (∃ fs', greatest.save (.empty []) "desk.yaml" = .done fs') ∧
      ∀ fs', greatest.save (.empty []) "desk.yaml" = .done fs' → load fs' "desk.yaml" = .ok greatest := by
  have hs : greatest.check = .ok () := check_eq_ok.mpr (by decide)
  obtain ⟨hsave, hload⟩ := load_of_save hs (.empty []) "desk.yaml" .standard
  exact ⟨hs, hsave.mpr ⟨⟨.vacant [Bytes.ofString "desk.yaml"], _, rfl, .inl rfl⟩, rfl⟩, hload⟩

end Settings

end CircuitDesk
