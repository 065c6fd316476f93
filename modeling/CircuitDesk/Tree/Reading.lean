import CircuitDesk.Tree

/-!
Reading trees from tokens, left to right with one token of lookahead. A reading consumes tokens from
the front of a list or stops with the first unmet expectation. Loops end because what they repeat
takes at least one token (`Shrinks`) and nothing gives tokens back (`NeverGrows`).
-/
namespace CircuitDesk.Tree

open Token (Kind)

inductive Expectation where
  | literal (text : Bytes)
  | kind (k : Kind)
  | oneOf (first : List Bytes) (last : Bytes)
  | gate
  | endOfStatement
  | endOfInput
  | entryRule
deriving DecidableEq, Repr

def inQuotes (s : Bytes) : Bytes := Bytes.quote :: s ++ [Bytes.quote]

def Expectation.text : Expectation → Bytes
  | literal s => inQuotes s
  | kind k => k.name
  | oneOf ws w => Bytes.join ", " (ws.map inQuotes) ++ " or " ++ inQuotes w
  | gate => "a gate"
  | endOfStatement => "end of statement"
  | endOfInput => "end of input"
  | entryRule => "a parse entry rule"

structure SyntaxFault where
  rule : Rule
  expected : Expectation
  found : Token
deriving DecidableEq, Repr

def SyntaxFault.pos (e : SyntaxFault) : Position := e.found.pos

def SyntaxFault.message (e : SyntaxFault) : Bytes :=
  e.pos.text ++ ": syntax error in " ++ e.rule.name ++ ": expected " ++ e.expected.text ++ ", found " ++
    e.found.shown

def Reading (α : Type) : Type := List Token → Except SyntaxFault (α × List Token)

namespace Reading

instance : Monad Reading where
  pure a := fun ts => .ok (a, ts)
  bind r f := fun ts =>
    match r ts with
    | .error e => .error e
    | .ok (a, rest) => f a rest

def front : List Token → Token
  | [] => ⟨.endOfInput, [], .unplaced⟩
  | t :: _ => t

def fail {α : Type} (rule : Rule) (expected : Expectation) : Reading α :=
  fun ts => .error ⟨rule, expected, front ts⟩

def peek : Reading Token := fun ts => .ok (front ts, ts)

def takeIf (p : Token → Bool) : Reading (Option Token) := fun
  | [] => .ok (none, [])
  | t :: ts => if p t then .ok (some t, ts) else .ok (none, t :: ts)

def require (rule : Rule) (expected : Expectation) (p : Token → Bool) : Reading Token := fun
  | [] => fail rule expected []
  | t :: ts => if p t then .ok (t, ts) else fail rule expected (t :: ts)

def expect (rule : Rule) (kind : Kind) (text : Bytes) : Reading Token :=
  require rule (.literal text) (·.is kind text)

def expectKind (rule : Rule) (kind : Kind) : Reading Token :=
  require rule (.kind kind) (·.kind = kind)

def mark (rule : Rule) (text : Bytes) : Reading Token := expect rule .punctuation text

def isNewline (t : Token) : Bool := t.kind = .newline

def skipNewlines : Reading Unit := fun ts => .ok ((), ts.dropWhile isNewline)

/-- A statement is followed by a newline or the end of the input, which stays. -/
def endStatement (rule : Rule) : Reading Unit := fun ts =>
  if (front ts).kind = .newline ∨ (front ts).kind = .endOfInput then .ok ((), ts)
  else fail rule .endOfStatement ts

def Shrinks {α : Type} (r : Reading α) : Prop :=
  ∀ ts a rest, r ts = .ok (a, rest) → rest.length < ts.length

def NeverGrows {α : Type} (r : Reading α) : Prop :=
  ∀ ts a rest, r ts = .ok (a, rest) → rest.length ≤ ts.length

theorem Shrinks.neverGrows {α : Type} {r : Reading α} (h : Shrinks r) : NeverGrows r :=
  fun ts a rest hr => Nat.le_of_lt (h ts a rest hr)

theorem bind_eq_ok {α β : Type} {r : Reading α} {f : α → Reading β} {ts rest : List Token} {b : β} :
    (r >>= f) ts = .ok (b, rest) ↔ ∃ a mid, r ts = .ok (a, mid) ∧ f a mid = .ok (b, rest) := by
  simp only [bind]
  cases h : r ts with
  | error e => simp
  | ok p =>
    obtain ⟨a, mid⟩ := p
    constructor
    · intro hf
      exact ⟨a, mid, rfl, hf⟩
    · rintro ⟨a', mid', he, hf⟩
      cases he
      exact hf

theorem Shrinks.bind {α β : Type} {r : Reading α} {f : α → Reading β} (hr : Shrinks r)
    (hf : ∀ a, NeverGrows (f a)) : Shrinks (r >>= f) := by
  intro ts b rest h
  obtain ⟨a, mid, h₁, h₂⟩ := bind_eq_ok.mp h
  exact Nat.lt_of_le_of_lt (hf a mid b rest h₂) (hr ts a mid h₁)

theorem NeverGrows.bind {α β : Type} {r : Reading α} {f : α → Reading β} (hr : NeverGrows r)
    (hf : ∀ a, NeverGrows (f a)) : NeverGrows (r >>= f) := by
  intro ts b rest h
  obtain ⟨a, mid, h₁, h₂⟩ := bind_eq_ok.mp h
  exact Nat.le_trans (hf a mid b rest h₂) (hr ts a mid h₁)

theorem NeverGrows.bind_shrinks {α β : Type} {r : Reading α} {f : α → Reading β}
    (hr : NeverGrows r) (hf : ∀ a, Shrinks (f a)) : Shrinks (r >>= f) := by
  intro ts b rest h
  obtain ⟨a, mid, h₁, h₂⟩ := bind_eq_ok.mp h
  exact Nat.lt_of_lt_of_le (hf a mid b rest h₂) (hr ts a mid h₁)

theorem neverGrows_pure {α : Type} (a : α) : NeverGrows (pure a : Reading α) := by
  intro ts b rest h
  cases h
  exact Nat.le_refl _

theorem shrinks_fail {α : Type} (rule : Rule) (e : Expectation) :
    Shrinks (fail rule e : Reading α) := by
  intro ts a rest h
  cases h

theorem neverGrows_peek : NeverGrows peek := by
  intro ts a rest h
  cases h
  exact Nat.le_refl _

theorem neverGrows_takeIf (p : Token → Bool) : NeverGrows (takeIf p) := by
  intro ts a rest h
  cases ts with
  | nil => cases h; exact Nat.le_refl _
  | cons t ts =>
    simp only [takeIf] at h
    split at h <;> cases h <;> simp

theorem shrinks_require (rule : Rule) (e : Expectation) (p : Token → Bool) :
    Shrinks (require rule e p) := by
  intro ts a rest h
  cases ts with
  | nil => cases h
  | cons t ts =>
    simp only [require] at h
    split at h
    · cases h; simp
    · cases h

theorem shrinks_expect (rule : Rule) (k : Kind) (s : Bytes) : Shrinks (expect rule k s) :=
  shrinks_require _ _ _

theorem shrinks_expectKind (rule : Rule) (k : Kind) : Shrinks (expectKind rule k) :=
  shrinks_require _ _ _

theorem shrinks_mark (rule : Rule) (s : Bytes) : Shrinks (mark rule s) := shrinks_expect _ _ _

theorem neverGrows_skipNewlines : NeverGrows skipNewlines := by
  intro ts a rest h
  cases h
  exact (List.dropWhile_sublist _).length_le

theorem neverGrows_endStatement (rule : Rule) : NeverGrows (endStatement rule) := by
  intro ts a rest h
  simp only [endStatement] at h
  split at h <;> cases h
  exact Nat.le_refl _

def commaSeparated {α : Type} (item : Reading α) (h : NeverGrows item) : Reading (List α) := fun ts =>
  match hi : item ts with
  | .error e => .error e
  | .ok (a, []) => .ok ([a], [])
  | .ok (a, t :: rest) =>
    have : rest.length < ts.length := h _ _ _ hi
    if t.is .punctuation "," then
      match commaSeparated item h rest with
      | .error e => .error e
      | .ok (as, rest) => .ok (a :: as, rest)
    else .ok ([a], t :: rest)
termination_by ts => ts.length

theorem neverGrows_commaSeparated {α : Type} (item : Reading α) (h : NeverGrows item) :
    NeverGrows (commaSeparated item h) := by
  intro ts
  fun_induction commaSeparated item h ts <;> intro as rest hr
  case case1 => cases hr
  case case2 hi => cases hr; simp
  case case3 => cases hr
  case case4 hlt _ as' rest'' hrec ih =>
    cases hr
    exact Nat.le_trans (ih _ _ hrec) (Nat.le_of_lt hlt)
  case case5 hi _ _ => cases hr; exact h _ _ _ hi

/-- Items up to the point where `stop` holds of the token in front; newlines before an item, and
before that point, are skipped. -/
def repeatUntil {α : Type} (stop : Token → Bool) (item : Reading α) (h : Shrinks item) :
    Reading (List α) := fun ts =>
  let ts' := ts.dropWhile isNewline
  if stop (front ts') then .ok ([], ts')
  else
    match hi : item ts' with
    | .error e => .error e
    | .ok (a, rest) =>
      have : rest.length < ts.length :=
        Nat.lt_of_lt_of_le (h _ _ _ hi) (List.dropWhile_sublist isNewline).length_le
      match repeatUntil stop item h rest with
      | .error e => .error e
      | .ok (as, rest) => .ok (a :: as, rest)
termination_by ts => ts.length

theorem neverGrows_repeatUntil {α : Type} (stop : Token → Bool) (item : Reading α)
    (h : Shrinks item) : NeverGrows (repeatUntil stop item h) := by
  intro ts
  fun_induction repeatUntil stop item h ts <;> intro as rest hr
  case case1 => cases hr; exact (List.dropWhile_sublist _).length_le
  case case2 => cases hr
  case case3 => cases hr
  case case4 hlt as' rest'' hrec ih =>
    cases hr
    exact Nat.le_trans (ih _ _ hrec) (Nat.le_of_lt hlt)

end Reading

end CircuitDesk.Tree
