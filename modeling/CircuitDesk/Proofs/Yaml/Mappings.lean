import CircuitDesk.Proofs.Yaml.Entries
import CircuitDesk.Yaml.Node.OfTokens

namespace CircuitDesk.Yaml

namespace Node

def word (line : Nat) (w : List Char) : Node := .scalar line [] true (Bytes.ofChars w)

def entries (line : Nat) : List Entry → List (Node × Node)
  | [] => []
  | e :: es => (word line e.1, word line e.2) :: entries (line + 1) es

end Node

namespace Reading

variable (r : Reader) (ts : List Token) (line fuel : Nat)

theorem blockPart_word (start : Nat) (w : List Char) :
    blockPart start (fuel + 2) { r with tokens := ⟨line, .scalar (Bytes.ofChars w) true⟩ :: ts } =
      .ok (.word line w, { r with tokens := ts }) := rfl

theorem blockEntries_end : blockEntries (fuel + 1) { r with tokens := ⟨line, .blockEnd⟩ :: ts } =
    .ok ([], { r with tokens := ts }) := rfl

theorem blockEntries_key (w : List Char) :
    blockEntries (fuel + 3) { r with tokens := keyTokens line w ++ ts } =
      (blockPart line (fuel + 2) { r with tokens := ts }).bind fun p =>
        (blockEntries (fuel + 2) p.2).map fun q => ((.word line w, p.1) :: q.1, q.2) := rfl

theorem blockEntries_entries (es : List Entry) :
    blockEntries (fuel + es.length + 2) { r with tokens := entriesTokens line es ++ ts } =
      (blockEntries (fuel + 2) { r with tokens := ts }).map fun q => (Node.entries line es ++ q.1, q.2) := by
  induction es generalizing line with
  | nil =>
    rw [entriesTokens, List.nil_append, List.length_nil, Nat.add_zero]
    cases blockEntries (fuel + 2) { r with tokens := ts } <;> rfl
  | cons e es ih =>
    have hvalue := blockPart_word r (entriesTokens (line + 1) es ++ ts) line (fuel + es.length) line e.2
    rw [entriesTokens, List.append_assoc, List.length_cons, ← Nat.add_assoc]
    rw [show fuel + es.length + 1 + 2 = fuel + es.length + 3 from rfl, blockEntries_key, List.cons_append, hvalue]
    simp only [Except.bind, ih]
    cases blockEntries (fuel + 2) { r with tokens := ts } <;> rfl

theorem blockPart_mapping (start : Nat) (es : List Entry) (last : Nat) :
    blockPart start (fuel + es.length + 4) { r with
      tokens := ⟨line, .blockMappingStart⟩ :: (entriesTokens line es ++ ⟨last, .blockEnd⟩ :: ts) } =
        .ok (.mapping line (Node.entries line es), { r with tokens := ts }) := by
  have hentries := blockEntries_entries r (⟨last, .blockEnd⟩ :: ts) line fuel es
  rw [blockEntries_end] at hentries
  have hpart : blockPart start (fuel + es.length + 4) { r with
      tokens := ⟨line, .blockMappingStart⟩ :: (entriesTokens line es ++ ⟨last, .blockEnd⟩ :: ts) } =
        (blockEntries (fuel + es.length + 2) { r with tokens := entriesTokens line es ++ ⟨last, .blockEnd⟩ :: ts }).map
          fun q => (.mapping line q.1, q.2) := by
    rfl
  rw [hpart, hentries]
  simp [Except.map]

theorem blockEntries_nested (es fs : List Entry) (group : List Char) (last : Nat) :
    blockEntries (fuel + fs.length + es.length + 5) { r with
      tokens := entriesTokens line es ++ (keyTokens (line + es.length) group ++
        ⟨line + es.length + 1, .blockMappingStart⟩ :: (entriesTokens (line + es.length + 1) fs ++
          ⟨last, .blockEnd⟩ :: ⟨last, .blockEnd⟩ :: ts)) } =
      .ok (Node.entries line es ++ [(.word (line + es.length) group,
        .mapping (line + es.length + 1) (Node.entries (line + es.length + 1) fs))], { r with tokens := ts }) := by
  have hgroup := blockPart_mapping r (⟨last, .blockEnd⟩ :: ts) (line + es.length + 1) fuel (line + es.length) fs last
  rw [show fuel + fs.length + es.length + 5 = fuel + fs.length + 3 + es.length + 2 by omega, blockEntries_entries,
    show fuel + fs.length + 3 + 2 = fuel + fs.length + 2 + 3 from rfl, blockEntries_key, hgroup]
  simp only [Except.bind]
  rw [show fuel + fs.length + 2 + 2 = fuel + fs.length + 3 + 1 from rfl, blockEntries_end]
  rfl

theorem document_mapping {fault : Fault} {r' : Reader} {entries : List (Node × Node)}
    (hentries : blockEntries fuel ⟨ts, fault, standardHandles, [], [], 0, 0⟩ = .ok (entries, r'))
    (hmore : r'.tokens ≠ []) :
    document (fuel + 1) ⟨⟨0, .streamStart⟩ :: ⟨0, .blockMappingStart⟩ :: ts, fault, [], [], [], 0, 0⟩ =
      .ok (some (.mapping 0 entries), r') := by
  have hnode : node true false (fuel + 1) ⟨⟨0, .blockMappingStart⟩ :: ts, fault, standardHandles, [], [], 0, 0⟩ =
      (blockEntries fuel ⟨ts, fault, standardHandles, [], [], 0, 0⟩).bind fun p => .ok (.mapping 0 p.1, p.2) := rfl
  have hdocument : document (fuel + 1) ⟨⟨0, .streamStart⟩ :: ⟨0, .blockMappingStart⟩ :: ts, fault, [], [], [], 0, 0⟩ =
      (node true false (fuel + 1) ⟨⟨0, .blockMappingStart⟩ :: ts, fault, standardHandles, [], [], 0, 0⟩).bind fun p =>
        (peek p.2).bind fun q => .ok (some p.1, q.2) := rfl
  obtain ⟨t, rest, hcons⟩ := List.exists_cons_of_ne_nil hmore
  have hpeek : peek r' = .ok (t, r') := by
    simp only [peek, bind, StateT.bind, get, getThe, MonadStateOf.get, StateT.get, pure, Except.pure, Except.bind,
      hcons]
    rfl
  rw [hdocument, hnode, hentries]
  simp only [Except.bind, hpeek]

end Reading

theorem length_entriesTokens (line : Nat) (es : List Entry) : (entriesTokens line es).length = 4 * es.length := by
  induction es generalizing line with
  | nil => rfl
  | cons e es ih =>
    simp only [entriesTokens, keyTokens, List.length_append, List.length_cons, List.length_nil, ih]
    omega

def nestedDocument (es : List Entry) (group : List Char) (fs : List Entry) (bound : Nat) : Document :=
  let inner := .mapping (es.length + 1) (Node.entries (es.length + 1) fs)
  ⟨.mapping 0 (Node.entries 0 es ++ [(.word es.length group, inner)]), [], 0, bound⟩

theorem parse_nestedText {j : Nat} (hj : 0 < j) {e f : Entry} {es fs : List Entry} {group : List Char}
    (hes : ∀ e' ∈ e :: es, IsEntry e') (hgroup : IsWord group) (hnear : group.length ≤ Scanner.keyLength)
    (hfs : ∀ e' ∈ f :: fs, IsEntry e') {s : Bytes} (hs : characters s = ⟨nestedText j e es group f fs, none⟩) :
    ∃ bound, es.length + fs.length + 16 ≤ bound ∧
      parse s = .ok (some (nestedDocument (e :: es) group (f :: fs) bound)) := by
  have htokens := tokens_nestedText hj hes hgroup hnear hfs
  rw [← hs] at htokens
  have hlength : (tokens (characters s)).list.length = 4 * (es.length + fs.length) + 17 := by
    rw [htokens]
    simp only [nestedTokens, keyTokens, List.length_cons, List.length_append, length_entriesTokens, List.length_nil]
    omega
  obtain ⟨fuel, hfuel⟩ : ∃ fuel, 2 * (tokens (characters s)).list.length + 4 =
      fuel + (f :: fs).length + (e :: es).length + 5 + 1 := by
    simp only [hlength, List.length_cons]
    exact ⟨7 * (es.length + fs.length) + 30, by omega⟩
  have hnested := Reading.blockEntries_nested ⟨[], .ofProblem .noContent, Reading.standardHandles, [], [], 0, 0⟩
    [⟨(e :: es).length + 1 + (f :: fs).length, .streamEnd⟩] 0 fuel (e :: es) (f :: fs) group
    ((e :: es).length + 1 + (f :: fs).length)
  rw [Nat.zero_add] at hnested
  have hdocument := Reading.document_mapping _ _ hnested (by simp)
  refine ⟨2 * (tokens (characters s)).list.length + 4, by omega, ?_⟩
  simp only [parse, hfuel]
  rw [htokens]
  show (Reading.document _ ⟨nestedTokens (e :: es) group (f :: fs), .ofProblem .noContent, [], [], [], 0, 0⟩).bind _ = _
  rw [nestedTokens, hdocument]
  rfl

end CircuitDesk.Yaml
