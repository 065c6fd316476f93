import CircuitDesk.Proofs.Yaml.Scanning

namespace CircuitDesk.Yaml

def Tokens.behind (front : List Token) (ts : Tokens) : Tokens := ⟨front ++ ts.list, ts.fault⟩

theorem Tokens.behind_behind (front back : List Token) (ts : Tokens) :
    Tokens.behind front (Tokens.behind back ts) = Tokens.behind (front ++ back) ts := by
  simp [Tokens.behind]

def keyTokens (line : Nat) (w : List Char) : List Token :=
  [⟨line, .key⟩, ⟨line, .scalar (Bytes.ofChars w) true⟩, ⟨line, .value⟩]

namespace Scanner

theorem tokens_fetch {s t : Scanner} (hs : s.queue = [] ∨ s.headMayBeKey = .ok true) (hfetch : s.fetch = .ok t)
    (n : Nat) : s.tokens (n + 1) = t.tokens n := by
  rw [tokens, hfetch]
  by_cases hqueue : s.queue = []
  · simp [hqueue]
  · have hkey := hs.resolve_left hqueue
    simp [hqueue, hkey, Except.map]

theorem tokens_queue (q : List Token) (hq : ∀ t ∈ q, t.kind ≠ .streamEnd) {s : Scanner} (hs : s.waiting = [])
    (hqueue : s.queue = q) (n : Nat) :
    s.tokens (n + q.length) = .behind q ({ s with queue := [], given := s.given + q.length }.tokens n) := by
  induction q generalizing s with
  | nil =>
    rw [show s = { s with queue := [], given := s.given + 0 } by rw [← hqueue]; rfl]
    rfl
  | cons t q ih =>
    obtain ⟨ht, hq⟩ := List.forall_mem_cons.mp hq
    have hhead : s.headMayBeKey = .ok false := by rw [headMayBeKey, hs]; rfl
    have hrest := ih hq (s := { s with queue := q, given := s.given + 1 }) hs rfl
    rw [List.length_cons, ← Nat.add_assoc, tokens]
    simp only [hqueue, hhead, Except.map, Bool.not_false, ht, if_false, reduceCtorEq, hrest]
    rw [Nat.add_assoc, Nat.add_comm 1]
    rfl

/-- A scanner that stands in a text outside of brackets and has given out all it has read. -/
def Rests (s : Scanner) (cs : List Char) (line column : Nat) (indent : Int) (outer : List Int) (allowed : Bool) :
    Prop :=
  ∃ index given k, k.possible = false ∧ s = resting ⟨cs, index, line, column⟩ given indent outer allowed k

section Steps

variable {s : Scanner} {w rest : List Char} {line column : Nat} {indent : Int} {outer : List Int}

theorem headMayBeKey_holding {c : Cursor} {index : Nat} (hnear : c.index ≤ index + keyLength) (t : Token) (given : Nat)
    (required : Bool) (column : Nat) :
    (holding c t given indent outer required index column).headMayBeKey = .ok true := by
  have hwaiting : (holding c t given indent outer required index column).waiting.lookup
      (holding c t given indent outer required index column).given = some 0 := List.lookup_cons_self
  rw [headMayBeKey, hwaiting]
  exact isStillPossible_holding c t given outer required hnear

theorem tokens_colon (hw : IsWord w) (hlength : w.length ≤ keyLength) (hrest : endsWord rest.head?)
    (hindent : indent ≤ column) {k k' : PossibleKey} (hk : k.possible = false) (hk' : k'.possible = false)
    {index given column' : Nat} {q : List Token} (hq : ∀ t ∈ q, t.kind ≠ .streamEnd) {indent' : Int} {outer' : List Int}
    (hfetch : (holding ⟨':' :: rest, index + w.length, line, column + w.length⟩
      ⟨line, .scalar (Bytes.ofChars w) true⟩ given indent outer (indent = column) index column).fetchValue =
        .ok ⟨⟨rest, index + w.length + 1, line, column'⟩, q, given, indent', outer', false, 0, [k'], [], false, none⟩) :
    ∃ s' : Scanner, s'.Rests rest line column' indent' outer' false ∧
      ∀ n, (resting ⟨w ++ ':' :: rest, index, line, column⟩ given indent outer true k).tokens (n + q.length + 2) =
        .behind q (s'.tokens n) := by
  have hnear : index + w.length ≤ index + keyLength := Nat.add_le_add_left hlength index
  have hkey := fetch_key hw hrest hindent hk index line given outer
  have hcolumn : indent ≤ (column + w.length : Nat) := by omega
  rw [← fetch_colon _ _ _ _ _ rfl hrest hcolumn] at hfetch
  refine ⟨_, ⟨index + w.length + 1, given + q.length, k', hk', rfl⟩, fun n => ?_⟩
  rw [tokens_fetch (.inl rfl) hkey, tokens_fetch (.inr (headMayBeKey_holding hnear _ _ _ _)) hfetch]
  exact tokens_queue q hq rfl rfl n

theorem tokens_key_next (h : s.Rests (w ++ ':' :: rest) line column column outer true) (hw : IsWord w)
    (hlength : w.length ≤ keyLength) (hrest : endsWord rest.head?) :
    ∃ (s' : Scanner) (column' : Nat), column ≤ column' ∧ s'.Rests rest line column' column outer false ∧
      ∀ n, s.tokens (n + 5) = .behind (keyTokens line w) (s'.tokens n) := by
  obtain ⟨index, given, k, hk, rfl⟩ := h
  have hnear : index + w.length ≤ index + keyLength := Nat.add_le_add_left hlength index
  obtain ⟨s', hs', htokens⟩ := tokens_colon hw hlength hrest (Int.le_refl column) hk rfl
    (q := keyTokens line w) (by simp [keyTokens]) (fetchValue_next _ _ given outer _ hnear (Int.le_refl column))
  exact ⟨s', column + w.length + 1, by omega, hs', htokens⟩

theorem tokens_key_first (h : s.Rests (w ++ ':' :: rest) line column indent outer true) (hw : IsWord w)
    (hlength : w.length ≤ keyLength) (hrest : endsWord rest.head?) (hindent : indent < column)
    (houter : outer.length < maxDepth) :
    ∃ (s' : Scanner) (column' : Nat), column ≤ column' ∧ s'.Rests rest line column' column (indent :: outer) false ∧
      ∀ n, s.tokens (n + 6) = .behind (⟨line, .blockMappingStart⟩ :: keyTokens line w) (s'.tokens n) := by
  obtain ⟨index, given, k, hk, rfl⟩ := h
  have hnear : index + w.length ≤ index + keyLength := Nat.add_le_add_left hlength index
  obtain ⟨s', hs', htokens⟩ := tokens_colon hw hlength hrest (Int.le_of_lt hindent) hk rfl
    (q := ⟨line, .blockMappingStart⟩ :: keyTokens line w) (by simp [keyTokens])
    (fetchValue_first _ _ given outer _ hnear hindent houter)
  exact ⟨s', column + w.length + 1, by omega, hs', htokens⟩

theorem tokens_value {j : Nat}
    (h : s.Rests (' ' :: (w ++ '\n' :: (List.replicate j ' ' ++ rest))) line column indent outer false)
    (hw : IsWord w) (hrest : StartsWord rest) (hindent : indent ≤ column) (hj : j ≤ indent) :
    ∃ s' : Scanner, s'.Rests rest (line + 1) j indent outer true ∧
      ∀ n, s.tokens (n + 2) = .behind [⟨line, .scalar (Bytes.ofChars w) true⟩] (s'.tokens n) := by
  obtain ⟨index, given, k, hk, rfl⟩ := h
  have hvalue := fetch_value hw hrest hindent (show j < (indent + 1).toNat by omega) index line given outer k
  refine ⟨_, ⟨index + 1 + w.length + 1 + j, given + 1, k, hk, rfl⟩, fun n => ?_⟩
  rw [tokens_fetch (.inl rfl) hvalue]
  exact tokens_queue [⟨line, .scalar (Bytes.ofChars w) true⟩] (by simp) rfl rfl n

theorem tokens_newline {j : Nat} (h : s.Rests ('\n' :: (List.replicate j ' ' ++ rest)) line column indent outer false)
    (hrest : StartsWord rest) :
    ∃ s' : Scanner, s'.Rests rest (line + 1) j indent outer true ∧ ∀ n, s.tokens (n + 1) = s'.tokens (n + 1) := by
  obtain ⟨index, given, k, hk, rfl⟩ := h
  have hthere : (resting ⟨'\n' :: (List.replicate j ' ' ++ rest), index, line, column⟩ given indent outer false
      k).toNextToken = resting ⟨rest, index + 1 + j, line + 1, j⟩ given indent outer true k :=
    toNextToken_resting (fun fresh => nextPlace_newline hrest _ fresh false index line column j) given indent outer k
  have hstay : (resting ⟨rest, index + 1 + j, line + 1, j⟩ given indent outer true k).toNextToken =
      resting ⟨rest, index + 1 + j, line + 1, j⟩ given indent outer true k :=
    toNextToken_resting (fun fresh => nextPlace_stop hrest _ fresh false _ _ _) given indent outer k
  refine ⟨_, ⟨index + 1 + j, given, k, hk, rfl⟩, fun n => ?_⟩
  have hfetch : (resting ⟨'\n' :: (List.replicate j ' ' ++ rest), index, line, column⟩ given indent outer false
      k).fetch = (resting ⟨rest, index + 1 + j, line + 1, j⟩ given indent outer true k).fetch := by
    rw [fetch, fetch, hthere, hstay]
  rw [tokens, tokens, hfetch]
  rfl

end Steps

end Scanner

abbrev Entry := List Char × List Char

structure IsEntry (e : Entry) : Prop where
  key : IsWord e.1
  near : e.1.length ≤ Scanner.keyLength
  value : IsWord e.2

def linesBelow (j i : Nat) (rest : List Char) : List Entry → List Char
  | [] => List.replicate i ' ' ++ rest
  | e :: es => List.replicate j ' ' ++ (e.1 ++ ':' :: ' ' :: (e.2 ++ '\n' :: linesBelow j i rest es))

def entriesText (j i : Nat) (rest : List Char) (e : Entry) (es : List Entry) : List Char :=
  e.1 ++ ':' :: ' ' :: (e.2 ++ '\n' :: linesBelow j i rest es)

def entriesTokens (line : Nat) : List Entry → List Token
  | [] => []
  | e :: es => keyTokens line e.1 ++ ⟨line, .scalar (Bytes.ofChars e.2) true⟩ :: entriesTokens (line + 1) es

theorem le_length_linesBelow (j i : Nat) (rest : List Char) (es : List Entry) :
    es.length + rest.length ≤ (linesBelow j i rest es).length := by
  induction es with
  | nil => simp [linesBelow]
  | cons e es ih =>
    simp only [linesBelow, List.length_append, List.length_cons]
    omega

namespace Scanner

section Entries

variable {s : Scanner} {rest : List Char} (hrest : StartsWord rest) {line i j : Nat} (hij : i ≤ j) {outer : List Int}

include hrest hij

theorem tokens_below {es : List Entry} (hes : ∀ e ∈ es, IsEntry e) {w : List Char} (hw : IsWord w) {column : Nat}
    (hcolumn : j ≤ column) (h : s.Rests (' ' :: (w ++ '\n' :: linesBelow j i rest es)) line column j outer false) :
    ∃ s' : Scanner, s'.Rests rest (line + es.length + 1) i j outer true ∧
      ∀ n, s.tokens (n + 7 * es.length + 2) =
        .behind (⟨line, .scalar (Bytes.ofChars w) true⟩ :: entriesTokens (line + 1) es) (s'.tokens n) := by
  induction es generalizing s w line column with
  | nil => exact tokens_value h hw hrest (by omega) (by omega)
  | cons e es ih =>
    obtain ⟨he, hes⟩ := List.forall_mem_cons.mp hes
    obtain ⟨s₁, hs₁, hvalue⟩ := tokens_value h hw (he.key.startsWord _) (by omega) (by omega)
    obtain ⟨s₂, column', hcolumn', hs₂, hkey⟩ := tokens_key_next hs₁ he.key he.near rfl
    obtain ⟨s₃, hs₃, hlater⟩ := ih hes he.value hcolumn' hs₂
    have hline : line + 1 + es.length + 1 = line + (e :: es).length + 1 := by rw [List.length_cons]; omega
    rw [hline] at hs₃
    refine ⟨s₃, hs₃, fun n => ?_⟩
    have hsteps : n + 7 * (e :: es).length + 2 = n + 7 * es.length + 2 + 5 + 2 := by rw [List.length_cons]; omega
    rw [hsteps, hvalue, hkey, hlater, Tokens.behind_behind, Tokens.behind_behind]
    rfl

theorem tokens_block {e : Entry} {es : List Entry} (hes : ∀ e' ∈ e :: es, IsEntry e') {indent : Int}
    (h : s.Rests (entriesText j i rest e es) line j indent outer true) (hindent : indent < j)
    (houter : outer.length < maxDepth) :
    ∃ s' : Scanner, s'.Rests rest (line + es.length + 1) i j (indent :: outer) true ∧
      ∀ n, s.tokens (n + 7 * es.length + 8) =
        .behind (⟨line, .blockMappingStart⟩ :: entriesTokens line (e :: es)) (s'.tokens n) := by
  obtain ⟨he, hes⟩ := List.forall_mem_cons.mp hes
  obtain ⟨s₁, column, hcolumn, hs₁, hkey⟩ := tokens_key_first h he.key he.near rfl hindent houter
  obtain ⟨s₂, hs₂, hbelow⟩ := tokens_below hrest hij hes he.value hcolumn hs₁
  refine ⟨s₂, hs₂, fun n => ?_⟩
  rw [hkey (n + 7 * es.length + 2), hbelow, Tokens.behind_behind]
  rfl

end Entries

theorem tokens_end {s : Scanner} {line j : Nat} (hj : 0 < j) (h : s.Rests [] line 0 j [0, -1] true) (n : Nat) :
    s.tokens (n + 4) = ⟨[⟨line, .blockEnd⟩, ⟨line, .blockEnd⟩, ⟨line, .streamEnd⟩], none⟩ := by
  obtain ⟨index, given, k, hk, rfl⟩ := h
  have hnext : (resting ⟨[], index, line, 0⟩ given j [0, -1] true k).toNextToken =
      resting ⟨[], index, line, 0⟩ given j [0, -1] true k :=
    toNextToken_resting (fun fresh => by rw [nextPlace]) given j [0, -1] k
  have hclose : (resting ⟨[], index, line, 0⟩ given j [0, -1] true k).unroll ((0 : Nat) : Int) =
      { resting ⟨[], index, line, 0⟩ given 0 [-1] true k with queue := [⟨line, .blockEnd⟩] } :=
    if_neg (show ¬ (j : Int) ≤ ((0 : Nat) : Int) by omega)
  have hremove (s : Scanner) (hs : s.keys = [k]) : s.removeKey = .ok s := by
    simp [removeKey, latestKey, hs, hk]
  have hfetch : (resting ⟨[], index, line, 0⟩ given j [0, -1] true k).fetch =
      .ok { resting ⟨[], index, line, 0⟩ given (-1) [] false k with
        queue := [⟨line, .blockEnd⟩, ⟨line, .blockEnd⟩, ⟨line, .streamEnd⟩] } := by
    rw [fetch_end rfl hnext hclose rfl, fetchEnd]
    show (removeKey _).bind _ = _
    rw [hremove _ rfl]
    rfl
  rw [tokens_fetch (.inl rfl) hfetch]
  rfl

theorem tokens_start {cs : List Char} (hcs : StartsWord cs) : ∃ s : Scanner, s.Rests cs 0 0 (-1) [] true ∧
    ∀ n, (start ⟨cs, none⟩).tokens (n + 1) = .behind [⟨0, .streamStart⟩] (s.tokens n) := by
  have hmarked : decide (cs.head? = some orderMarkChar) = false := decide_eq_false hcs.head?_ne
  refine ⟨resting (.start cs) 1 (-1) [] true noKey, ⟨0, 1, noKey, rfl, rfl⟩, fun n => ?_⟩
  have hstart : start ⟨cs, none⟩ = { resting (.start cs) 0 (-1) [] true noKey with queue := [⟨0, .streamStart⟩] } := by
    rw [start, hmarked]
    rfl
  rw [hstart]
  exact tokens_queue [⟨0, .streamStart⟩] (by simp) rfl rfl n

end Scanner

def nestedText (j : Nat) (e : Entry) (es : List Entry) (group : List Char) (f : Entry) (fs : List Entry) : List Char :=
  entriesText 0 0 (group ++ ':' :: '\n' :: (List.replicate j ' ' ++ entriesText j 0 [] f fs)) e es

def nestedTokens (es : List Entry) (group : List Char) (fs : List Entry) : List Token :=
  let last := es.length + 1 + fs.length
  ⟨0, .streamStart⟩ :: ⟨0, .blockMappingStart⟩ :: (entriesTokens 0 es ++ (keyTokens es.length group ++
    ⟨es.length + 1, .blockMappingStart⟩ :: (entriesTokens (es.length + 1) fs ++
      [⟨last, .blockEnd⟩, ⟨last, .blockEnd⟩, ⟨last, .streamEnd⟩])))

theorem le_length_nestedText (j : Nat) (e f : Entry) (es fs : List Entry) (group : List Char) :
    es.length + fs.length ≤ (nestedText j e es group f fs).length := by
  have hinside := le_length_linesBelow j 0 [] fs
  have houtside := le_length_linesBelow 0 0
    (group ++ ':' :: '\n' :: (List.replicate j ' ' ++ entriesText j 0 [] f fs)) es
  simp only [nestedText, entriesText, List.length_append, List.length_cons, List.length_nil] at hinside houtside ⊢
  omega

theorem isAllowed_spaces (n : Nat) : ∀ c ∈ List.replicate n ' ', isAllowed c := by
  intro c hc
  rw [List.eq_of_mem_replicate hc]
  rfl

theorem IsWord.isAllowed {w : List Char} (hw : IsWord w) : ∀ c ∈ w, isAllowed c := fun c hc =>
  isAllowed_of_isWordChar (hw.chars c hc)

theorem IsEntry.isAllowed {e : Entry} (he : IsEntry e) {below : List Char} (hbelow : ∀ c ∈ below, isAllowed c) :
    ∀ c ∈ e.1 ++ ':' :: ' ' :: (e.2 ++ '\n' :: below), isAllowed c := by
  simp only [List.forall_mem_append, List.forall_mem_cons]
  exact ⟨he.key.isAllowed, rfl, rfl, he.value.isAllowed, rfl, hbelow⟩

theorem isAllowed_linesBelow {j i : Nat} {rest : List Char} (hrest : ∀ c ∈ rest, isAllowed c) {es : List Entry}
    (hes : ∀ e ∈ es, IsEntry e) : ∀ c ∈ linesBelow j i rest es, isAllowed c := by
  induction es with
  | nil => exact List.forall_mem_append.mpr ⟨isAllowed_spaces i, hrest⟩
  | cons e es ih =>
    obtain ⟨he, hes⟩ := List.forall_mem_cons.mp hes
    exact List.forall_mem_append.mpr ⟨isAllowed_spaces j, he.isAllowed (ih hes)⟩

theorem isAllowed_entriesText {j i : Nat} {rest : List Char} (hrest : ∀ c ∈ rest, isAllowed c) {e : Entry}
    {es : List Entry} (hes : ∀ e' ∈ e :: es, IsEntry e') : ∀ c ∈ entriesText j i rest e es, isAllowed c := by
  obtain ⟨he, hes⟩ := List.forall_mem_cons.mp hes
  exact he.isAllowed (isAllowed_linesBelow hrest hes)

theorem isAllowed_nestedText (j : Nat) {e f : Entry} {es fs : List Entry} {group : List Char}
    (hes : ∀ e' ∈ e :: es, IsEntry e') (hgroup : IsWord group) (hfs : ∀ e' ∈ f :: fs, IsEntry e') :
    ∀ c ∈ nestedText j e es group f fs, isAllowed c := by
  apply isAllowed_entriesText _ hes
  simp only [List.forall_mem_append, List.forall_mem_cons]
  exact ⟨hgroup.isAllowed, rfl, rfl, isAllowed_spaces j, isAllowed_entriesText (by simp) hfs⟩

theorem tokens_nestedText {j : Nat} (hj : 0 < j) {e f : Entry} {es fs : List Entry} {group : List Char}
    (hes : ∀ e' ∈ e :: es, IsEntry e') (hgroup : IsWord group) (hnear : group.length ≤ Scanner.keyLength)
    (hfs : ∀ e' ∈ f :: fs, IsEntry e') : tokens ⟨nestedText j e es group f fs, none⟩ =
      ⟨nestedTokens (e :: es) group (f :: fs), none⟩ := by
  have he := (hes e List.mem_cons_self).key
  have hf := (hfs f List.mem_cons_self).key
  have hfirst : StartsWord (nestedText j e es group f fs) := he.startsWord _
  obtain ⟨s₀, hs₀, hstart⟩ := Scanner.tokens_start hfirst
  obtain ⟨s₁, hs₁, hblock⟩ := Scanner.tokens_block (hgroup.startsWord _) (Nat.le_refl 0) hes hs₀ (by decide) (by decide)
  obtain ⟨s₂, column, -, hs₂, hkey⟩ := Scanner.tokens_key_next hs₁ hgroup hnear rfl
  obtain ⟨s₃, hs₃, hnewline⟩ := Scanner.tokens_newline hs₂ (hf.startsWord _)
  obtain ⟨s₄, hs₄, hinner⟩ := Scanner.tokens_block (by simp [StartsWord]) (Nat.zero_le j) hfs hs₃ (by omega)
    (by decide : [-1].length < Scanner.maxDepth)
  have hlength := le_length_nestedText j e f es fs group
  have hsteps : 4 + 7 * fs.length + 8 + 5 + 7 * es.length + 8 + 1 ≤
      stepsPerChar * ((nestedText j e es group f fs).length + 4) := by
    rw [stepsPerChar]
    omega
  obtain ⟨n, hn⟩ := Nat.exists_eq_add_of_le' hsteps
  have hlast : 0 + es.length + 1 + 1 + fs.length + 1 = es.length + 1 + 1 + (fs.length + 1) := by omega
  rw [hlast] at hs₄
  have hsum : n + (4 + 7 * fs.length + 8 + 5 + 7 * es.length + 8 + 1) =
      n + 4 + 7 * fs.length + 8 + 5 + 7 * es.length + 8 + 1 := by omega
  rw [tokens, hn, hsum, hstart, hblock, hkey, hnewline (n + 4 + 7 * fs.length + 7), hinner, Scanner.tokens_end hj hs₄,
    Nat.zero_add]
  simp [Tokens.behind, nestedTokens]

end CircuitDesk.Yaml
