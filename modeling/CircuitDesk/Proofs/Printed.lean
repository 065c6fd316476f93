import CircuitDesk.Proofs.Layout
import CircuitDesk.Proofs.Readable

/-!
Printed trees. The text of a tree that comes from a source can be read back in only one way: words end at blanks and
parentheses, strings at their quotes, and what is not printed, the words that open statements and the kinds of tokens,
follows from what is.
-/
namespace CircuitDesk

open Bytes (AllDigits Quotable StopsAt isDigit)

/-- The bytes between which a printed tree is cut: blanks, parentheses and quotes. -/
def isCut (b : UInt8) : Bool := b ∈ ([32, 34, 40, 41] : Bytes)

def Uncut (s : Bytes) : Prop := ∀ b ∈ s, !isCut b

instance (s : Bytes) : Decidable (Uncut s) := decidable_of_iff (s.all (!isCut ·)) List.all_eq_true

def IsWord (s : Bytes) : Prop := s ≠ [] ∧ Uncut s

instance (s : Bytes) : Decidable (IsWord s) := inferInstanceAs (Decidable (_ ∧ _))

def Ends (s : Bytes) : Prop := ∀ b ∈ s.head?, b = 32 ∨ b = 41

theorem ends_cons {b : UInt8} (s : Bytes) (h : b = 32 ∨ b = 41) : Ends (b :: s) := by
  rintro c ⟨⟩
  exact h

theorem Ends.stops {s : Bytes} (h : Ends s) : StopsAt (!isCut ·) s := by
  intro b hb
  rcases h b hb with rfl | rfl <;> rfl

theorem isCut_of_digit {b : UInt8} (h : isDigit b) : isCut b = false := by
  have hne {c : UInt8} (hc : isDigit c = false) : b ≠ c := Bytes.isDigit_ne h hc
  simp [isCut, hne (c := 32) rfl, hne (c := 34) rfl, hne (c := 40) rfl, hne (c := 41) rfl]

inductive Shown : Bytes → Prop
  | word {s} : IsWord s → Shown s
  | quoted {s} : Quotable s → Shown (quoteText s)

theorem word_unique {u v s s' : Bytes} (hu : IsWord u) (hv : IsWord v) (hs : Ends s) (hs' : Ends s')
    (h : u ++ s = v ++ s') : u = v ∧ s = s' := by
  have hcut := congrArg (List.takeWhile (!isCut ·)) h
  rw [Bytes.takeWhile_append_stop hu.2 hs.stops, Bytes.takeWhile_append_stop hv.2 hs'.stops] at hcut
  subst hcut
  exact ⟨rfl, List.append_cancel_left h⟩

theorem quoted_unique {u v s s' : Bytes} (hu : Quotable u) (hv : Quotable v)
    (h : quoteText u ++ s = quoteText v ++ s') : quoteText u = quoteText v ∧ s = s' := by
  have inner {w : Bytes} (hw : Quotable w) (r : Bytes) :
      ((quoteText w ++ r).drop 1).takeWhile (· ≠ Bytes.quote) = w := by
    have hsplit : (quoteText w ++ r).drop 1 = w ++ Bytes.quote :: r := by simp [quoteText]
    rw [hsplit]
    exact Bytes.takeWhile_append_stop (fun b hb => by simp [(hw b hb).1]) (Bytes.stopsAt_cons r (by simp))
  have huv : u = v := by rw [← inner hu s, h, inner hv s']
  subst huv
  exact ⟨rfl, List.append_cancel_left h⟩

theorem word_start {s : Bytes} (h : IsWord s) : ∃ b r, s = b :: r ∧ isCut b = false := by
  obtain ⟨hne, hs⟩ := h
  obtain ⟨b, r, rfl⟩ := List.exists_cons_of_ne_nil hne
  exact ⟨b, r, rfl, by simpa using hs b List.mem_cons_self⟩

theorem quoted_ne_word {u v s s' : Bytes} (hv : IsWord v) : quoteText u ++ s ≠ v ++ s' := by
  obtain ⟨b, r, rfl, hb⟩ := word_start hv
  intro h
  obtain ⟨rfl, -⟩ := List.cons.inj h
  cases hb

theorem shown_unique {u v s s' : Bytes} (hu : Shown u) (hv : Shown v) (hs : Ends s) (hs' : Ends s')
    (h : u ++ s = v ++ s') : u = v ∧ s = s' := by
  cases hu with
  | word hu =>
    cases hv with
    | word hv => exact word_unique hu hv hs hs' h
    | quoted hv => exact absurd h.symm (quoted_ne_word hu)
  | quoted hu =>
    cases hv with
    | word hv => exact absurd h (quoted_ne_word hv)
    | quoted hv => exact quoted_unique hu hv h

theorem shown_ne_node {u s s' : Bytes} (hu : Shown u) : u ++ s ≠ 40 :: s' := by
  cases hu with
  | word hu =>
    obtain ⟨b, r, rfl, hb⟩ := word_start hu
    intro h
    obtain ⟨rfl, -⟩ := List.cons.inj h
    cases hb
  | quoted hu =>
    intro h
    cases (List.cons.inj h).1

theorem IsWord.append {u v : Bytes} (hu : IsWord u) (hv : Uncut v) : IsWord (u ++ v) :=
  ⟨List.append_ne_nil_of_left_ne_nil hu.1 v, List.forall_mem_append.mpr ⟨hu.2, hv⟩⟩

namespace Token

theorem uncut_of_digits {ds : Bytes} (h : AllDigits ds) : Uncut ds := fun b hb => by
  simp [isCut_of_digit (h b hb)]

theorem uncut_of_sign {signs sign : Bytes} (hsigns : Uncut signs) (h : IsSign signs sign) : Uncut sign := by
  rcases h with rfl | ⟨b, hb, rfl⟩
  · exact List.forall_mem_nil _
  · exact List.forall_mem_singleton.mpr (hsigns b hb)

theorem word_of_numeral {signs s : Bytes} (hsigns : Uncut signs) (h : IsNumeral signs s) : IsWord s := by
  obtain ⟨hsign, hne, hds⟩ := h
  exact ⟨List.append_ne_nil_of_right_ne_nil _ hne,
    List.forall_mem_append.mpr ⟨uncut_of_sign hsigns hsign, uncut_of_digits hds⟩⟩

theorem word_of_float {s : Bytes} (h : IsFloat s) : IsWord s := by
  obtain ⟨hnumber, hpoint, hpower⟩ := h
  refine (word_of_numeral (by decide) hnumber).append (List.forall_mem_append.mpr ⟨?_, ?_⟩)
  · cases hpoint with
    | absent => exact List.forall_mem_nil _
    | present hne hds => exact List.forall_mem_cons.mpr ⟨rfl, uncut_of_digits hds⟩
  · obtain ⟨hsign, hds, -⟩ := hpower
    exact List.forall_mem_cons.mpr ⟨rfl, List.forall_mem_append.mpr
      ⟨uncut_of_sign (by decide) hsign, uncut_of_digits hds⟩⟩

def shownKinds : List Kind := [.string, .integer, .float, .keyword, .repetition]

theorem shown_of_spells {kind : Kind} {s : Bytes} (hkind : kind ∈ shownKinds) (h : kind.Spells s) : Shown s := by
  simp only [shownKinds, List.mem_cons, List.not_mem_nil, or_false] at hkind
  rcases hkind with rfl | rfl | rfl | rfl | rfl
  · obtain ⟨inner, hinner, rfl⟩ := h
    exact .quoted hinner
  · exact .word (word_of_numeral (by decide) h)
  · exact .word (word_of_float h)
  · have hwords : ∀ w ∈ keywords, IsWord w := by decide
    exact .word (hwords s h)
  · obtain ⟨ds, hne, hds, rfl⟩ := h
    exact .word ⟨List.cons_ne_nil _ _, List.forall_mem_cons.mpr ⟨rfl, uncut_of_digits hds⟩⟩

end Token

namespace Tree

open Token (shownKinds)

variable {rule : Rule} {opening opening' : Option Token} {parts parts' : List Tree}

theorem Shape.rule_mem (h : Shape (.node rule opening parts)) : rule ∈ Rule.all := by
  cases h <;> decide

theorem Shape.leaf_kind (h : Shape (.node rule opening parts)) {tok : Token} (hmem : .leaf tok ∈ parts) :
    tok.kind ∈ shownKinds ∨ tok.is .punctuation "*" := by
  have hleaves {us : List Token} {p : Token → Prop} (hus : ∀ u ∈ us, p u) (hmem : Tree.leaf tok ∈ us.map Tree.leaf) :
      p tok := by
    obtain ⟨u, hu, hleaf⟩ := List.mem_map.mp hmem
    cases hleaf
    exact hus tok hu
  cases h with
  | program hmain hsubs =>
    rcases List.mem_cons.mp hmem with rfl | hmem
    · cases hmain
    · cases hsubs _ hmem
  | circuit hinputs hgates houtputs =>
    rw [List.cons_append, List.mem_cons, List.mem_append, List.mem_singleton] at hmem
    rcases hmem with rfl | hmem | rfl
    · cases hinputs
    · simpa [Rule.gates] using hgates _ hmem
    · cases houtputs
  | arity hne hitems => cases hitems _ hmem
  | intList hws => exact .inl (by rw [hleaves hws hmem]; decide)
  | signedList hopening hrefs => exact .inl (by rw [hleaves hrefs hmem]; decide)
  | inversion hstars => exact .inr (hleaves hstars hmem)
  | repetition hcounts => exact .inl (by rw [hleaves hcounts hmem]; decide)
  | wireLabelList hps =>
    obtain ⟨p, hp, hleaf⟩ := List.mem_flatMap.mp hmem
    simp only [List.mem_cons, List.not_mem_nil, or_false, Tree.leaf.injEq] at hleaf
    rcases hleaf with rfl | rfl
    · exact .inl (by rw [(hps p hp).1]; decide)
    · exact .inl (by rw [(hps p hp).2]; decide)
  | uncontrolled => cases hmem
  | _ =>
    simp only [List.mem_cons, List.not_mem_nil, or_false, Tree.leaf.injEq] at hmem
    rcases hmem with rfl | rfl | rfl | rfl | rfl | rfl | rfl
    all_goals simp_all [shownKinds, Grammar.is_iff, Token.OneOf]

def openingOf (rule : Rule) (parts : List Tree) : Option Token :=
  match rule, parts with
  | .qgate, _ => some ⟨.opener, "QGate[", .unplaced⟩
  | .qrot, _ => some ⟨.opener, "QRot[", .unplaced⟩
  | .comment, _ => some ⟨.opener, "Comment[", .unplaced⟩
  | .signedList, _ => some ⟨.opener, "controls=[", .unplaced⟩
  | .subroutineCall, _ => some ⟨.keyword, "Subroutine", .unplaced⟩
  | .subroutine, _ => some ⟨.header, "Subroutine:", .unplaced⟩
  | .qinit, .leaf word :: _ => some word.unplaced
  | _, _ => none

theorem unplaced_of_is {t : Token} {kind : Token.Kind} {text : Bytes} (h : t.is kind text) :
    t.unplaced = ⟨kind, text, .unplaced⟩ := by
  obtain ⟨hkind, htext⟩ := Grammar.is_iff.mp h
  rw [Token.unplaced, hkind, htext]

theorem Shape.opening_eq (h : Shape (.node rule opening parts)) :
    opening.map Token.unplaced = openingOf rule (parts.map unplaced) := by
  cases h with
  | qgate hopening => exact congrArg some (unplaced_of_is hopening)
  | qrot hopening => exact congrArg some (unplaced_of_is hopening)
  | comment hopening => exact congrArg some (unplaced_of_is hopening)
  | signedList hopening => exact congrArg some (unplaced_of_is hopening)
  | subroutineCall hopening => exact congrArg some (unplaced_of_is hopening)
  | subroutine hopening => exact congrArg some (unplaced_of_is hopening)
  | bareInit | labelledInit => simp [openingOf, unplaced, Token.unplaced]
  | _ => rfl

/-- A tree whose nodes have their shapes, over tokens that are spelled as their kinds and printed in one piece. -/
def Legible (t : Tree) : Prop :=
  t.WellShaped ∧ ∀ tok, Within (.leaf tok) t → tok.kind.Spells tok.text ∧ Shown tok.text

theorem Legible.part (h : Legible (.node rule opening parts)) : ∀ t ∈ parts, t.Legible := fun t ht =>
  ⟨h.1.part t ht, fun tok htok => h.2 tok (.part ht htok)⟩

theorem shown_within {t : Tree} {tok : Token} (htok : Within (.leaf tok) t) (h : t.WellShaped)
    (hspells : tok.kind.Spells tok.text) : t = .leaf tok ∨ Shown tok.text := by
  induction htok with
  | self => exact .inl rfl
  | part ht _ ih =>
    rcases ih (h.part _ ht) with rfl | hshown
    · rcases h.shape.leaf_kind ht with hkind | hstar
      · exact .inr (Token.shown_of_spells hkind hspells)
      · rw [(Grammar.is_iff.mp hstar).2]
        exact .inr (.word (by decide))
    · exact .inr hshown

theorem name_word : ∀ r ∈ Rule.all, IsWord r.name := by decide

theorem name_inj : ∀ r ∈ Rule.all, ∀ r' ∈ Rule.all, r.name = r'.name → r = r' := by decide +kernel

theorem ends_textOf (ts : List Tree) (s : Bytes) : Ends (textOf ts ++ 41 :: s) := by
  cases ts with
  | nil => exact ends_cons s (.inr rfl)
  | cons t ts => exact ends_cons _ (.inl rfl)

theorem text_node (rule : Rule) (opening : Option Token) (parts : List Tree) (s : Bytes) :
    (Tree.node rule opening parts).text ++ s = 40 :: (rule.name ++ (textOf parts ++ 41 :: s)) := by
  rw [text]
  simp only [List.append_assoc]
  rfl

theorem textOf_cons (t : Tree) (ts : List Tree) (s : Bytes) :
    textOf (t :: ts) ++ s = 32 :: (t.text ++ (textOf ts ++ s)) := by
  rw [textOf]
  simp only [List.append_assoc]
  rfl

mutual

/-- One text is printed in front of what may follow a tree in one way only. -/
theorem text_unique : ∀ (t t' : Tree) {s s' : Bytes}, t.Legible → t'.Legible → Ends s → Ends s' →
    t.text ++ s = t'.text ++ s' → t.unplaced = t'.unplaced ∧ s = s'
  | .leaf tok, .leaf tok', s, s', ht, ht', hs, hs', h => by
    obtain ⟨hspells, hshown⟩ := ht.2 tok .self
    obtain ⟨hspells', hshown'⟩ := ht'.2 tok' .self
    rw [text, text] at h
    obtain ⟨htext, hrest⟩ := shown_unique hshown hshown' hs hs' h
    rw [← htext] at hspells'
    have hkind := hspells.unique hspells'
    exact ⟨by simp only [unplaced, Token.unplaced, htext, hkind], hrest⟩
  | .leaf tok, .node rule opening parts, s, s', ht, _, _, _, h => by
    rw [text_node, text] at h
    exact absurd h (shown_ne_node (ht.2 tok .self).2)
  | .node rule opening parts, .leaf tok, s, s', _, ht', _, _, h => by
    rw [text_node, text] at h
    exact absurd h.symm (shown_ne_node (ht'.2 tok .self).2)
  | .node rule opening parts, .node rule' opening' parts', s, s', ht, ht', hs, hs', h => by
    rw [text_node, text_node] at h
    have hrule := ht.1.shape.rule_mem
    have hrule' := ht'.1.shape.rule_mem
    -- the name of the rule ends where the parts start, or at the closing parenthesis
    obtain ⟨hname, hparts⟩ := word_unique (name_word _ hrule) (name_word _ hrule') (ends_textOf parts s)
      (ends_textOf parts' s') (List.cons.inj h).2
    obtain rfl := name_inj _ hrule _ hrule' hname
    obtain ⟨hparts, hrest⟩ := textOf_unique parts parts' ht.part ht'.part hparts
    have hopening : opening.map Token.unplaced = opening'.map Token.unplaced := by
      rw [ht.1.shape.opening_eq, ht'.1.shape.opening_eq, hparts]
    exact ⟨by rw [unplaced, unplaced, unplacedOf_eq, unplacedOf_eq, hparts, hopening], hrest⟩

theorem textOf_unique : ∀ (ts ts' : List Tree) {s s' : Bytes}, (∀ t ∈ ts, t.Legible) → (∀ t ∈ ts', t.Legible) →
    textOf ts ++ 41 :: s = textOf ts' ++ 41 :: s' → ts.map unplaced = ts'.map unplaced ∧ s = s'
  | [], [], _, _, _, _, h => ⟨rfl, (List.cons.inj h).2⟩
  | [], t :: ts, _, _, _, _, h => by
    rw [textOf_cons] at h
    cases (List.cons.inj h).1
  | t :: ts, [], _, _, _, _, h => by
    rw [textOf_cons] at h
    cases (List.cons.inj h).1
  | t :: ts, t' :: ts', s, s', hts, hts', h => by
    obtain ⟨ht, hts⟩ := List.forall_mem_cons.mp hts
    obtain ⟨ht', hts'⟩ := List.forall_mem_cons.mp hts'
    rw [textOf_cons, textOf_cons] at h
    obtain ⟨hfirst, hlater⟩ :=
      text_unique t t' ht ht' (ends_textOf ts s) (ends_textOf ts' s') (List.cons.inj h).2
    obtain ⟨hmap, hrest⟩ := textOf_unique ts ts' hts hts' hlater
    exact ⟨by rw [List.map_cons, List.map_cons, hfirst, hmap], hrest⟩

end

end Tree

theorem legible_of_tree {rule : Rule} {file text : Bytes} {t : Tree} (h : Source.tree rule file text = .ok t) :
    t.Legible := by
  obtain ⟨hentry, ts, w, hlex, hin, hw⟩ := derives_of_tree h
  obtain ⟨hroot, hshaped⟩ := Grammar.shaped_derives hw
  refine ⟨hshaped, fun tok htok => ?_⟩
  have hmem : tok ∈ t.tokens := htok.tokens_subset (by simp [Tree.tokens])
  have hspells := spells_of_derives hlex hin hw tok hmem
  refine ⟨hspells, (Tree.shown_within htok hshaped hspells).resolve_left ?_⟩
  rintro rfl
  have hentries : ∀ r ∈ Rule.entries, .terminal ∉ Grammar.rootRules r := by decide
  exact hentries rule (of_decide_eq_true hentry) hroot

/-- What is printed of a tree identifies it: two texts whose trees by one rule are printed alike have the same tree,
places apart, and so the same value, or they are refused for the same reason. -/
theorem same_of_printed (rule : Rule) (o o' : ReadOptions) (hstrict : o'.strict = o.strict) (text text' : Bytes)
    (t t' : Tree) (h : Source.tree rule o.file text = .ok t) (h' : Source.tree rule o'.file text' = .ok t')
    (htext : t'.text = t.text) :
    t'.unplaced = t.unplaced ∧ SameValue (Source.value rule o text) (Source.value rule o' text') := by
  have hends : Ends [] := fun b hb => by cases hb
  have hplaces : t'.unplaced = t.unplaced :=
    (Tree.text_unique t' t (legible_of_tree h') (legible_of_tree h) hends hends
      (by rw [List.append_nil, List.append_nil, htext])).1
  refine ⟨hplaces, ?_⟩
  simp only [Source.value, h, h', hstrict]
  exact sameValue_of_alike (valueOfTree_alike hplaces rule o.strict)

def bracketed : Bytes := Bytes.unlines ["Comment[\") (wire 1 \"](01:\" (\",2:\"wire_label_list)\")"]

def bracketedApart : Bytes :=
  Bytes.unlines ["", "", "  Comment[ \") (wire 1 \" ]  ( 01 : \" (\" , 2 : \"wire_label_list)\" )"]

theorem same_of_bracketed : ∃ t t', Source.tree .gate "a" bracketed = .ok t ∧
    Source.tree .gate "b" bracketedApart = .ok t' ∧ t'.text = t.text ∧ t'.unplaced = t.unplaced ∧
      SameValue (Source.value .gate ⟨"a", true⟩ bracketed) (Source.value .gate ⟨"b", true⟩ bracketedApart) := by
  have htexts : (Source.tree .gate "a" bracketed).toOption.isSome ∧
      (Source.tree .gate "b" bracketedApart).toOption.map Tree.text =
        (Source.tree .gate "a" bracketed).toOption.map Tree.text := by decide +kernel
  obtain ⟨hsome, htexts⟩ := htexts
  cases h : Source.tree .gate "a" bracketed with
  | error e =>
    rw [h] at hsome
    cases hsome
  | ok t =>
    rw [h] at htexts
    cases h' : Source.tree .gate "b" bracketedApart with
    | error e =>
      rw [h'] at htexts
      cases htexts
    | ok t' =>
      rw [h'] at htexts
      have htext : t'.text = t.text := Option.some.inj htexts
      exact ⟨t, t', rfl, rfl, htext, same_of_printed .gate ⟨"a", true⟩ ⟨"b", true⟩ rfl _ _ t t' h h' htext⟩

end CircuitDesk
