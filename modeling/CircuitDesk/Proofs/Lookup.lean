import CircuitDesk.Program.Report

namespace CircuitDesk

namespace NameIndex

theorem get?_add (ix : NameIndex) (name : Bytes) (i : Nat) (n : Bytes) :
    (ix.add name i).get? n = (ix.get? n).or (if n = name then some i else none) := by
  rw [add]
  split
  · rename_i hsome
    by_cases hn : n = name
    · subst hn
      obtain ⟨j, hj⟩ := Option.isSome_iff_exists.mp hsome
      simp [hj]
    · simp [hn]
  · by_cases hn : n = name
    · simp [get?, List.lookup_append, hn]
    · simp [get?, List.lookup_append, hn, List.lookup_cons, beq_false_of_ne hn]

theorem get?_foldl (subs : List Subroutine) (k : Nat) (ix : NameIndex) (n : Bytes) :
    ((subs.zipIdx k).foldl (fun ix (s, i) => ix.add s.name i) ix).get? n =
      (ix.get? n).or ((subs.findIdx? (·.name = n)).map (· + k)) := by
  induction subs generalizing k ix with
  | nil => simp
  | cons s subs ih =>
    rw [List.zipIdx_cons, List.foldl_cons, ih, get?_add, List.findIdx?_cons, Option.or_assoc]
    by_cases hs : s.name = n
    · simp [hs]
    · have hn : n ≠ s.name := fun h => hs h.symm
      simp [hs, hn, Function.comp_def, Nat.add_assoc, Nat.add_comm 1]

theorem get?_ofSubroutines (subs : List Subroutine) (n : Bytes) :
    (ofSubroutines subs).get? n = subs.findIdx? (·.name = n) := by
  rw [ofSubroutines, get?_foldl]
  simp [get?]

end NameIndex

namespace Program

def Assembled (p : Program) : Prop := p.index = none ∨ p.index = some (.ofSubroutines p.subroutines)

theorem assembled_indexed (main : Circuit) (subs : List Subroutine) : (indexed main subs).Assembled := .inr rfl

theorem assembled_bare (main : Circuit) (subs : List Subroutine) : (bare main subs).Assembled := .inl rfl

theorem subroutine?_eq_find? {p : Program} (hp : p.Assembled) (name : Bytes) :
    p.subroutine? name = p.subroutines.find? (·.name = name) := by
  rcases hp with hp | hp
  · simp only [subroutine?, hp]
  · simp only [subroutine?, hp, NameIndex.get?_ofSubroutines]
    exact List.find?_eq_bind_findIdx?_getElem?.symm

def FirstNamed (name : Bytes) (subs : List Subroutine) : Option Subroutine → Prop
  | some s => s.name = name ∧ ∃ before after, subs = before ++ s :: after ∧ ∀ t ∈ before, t.name ≠ name
  | none => ∀ t ∈ subs, t.name ≠ name

theorem firstNamed_find? (name : Bytes) (subs : List Subroutine) :
    FirstNamed name subs (subs.find? (·.name = name)) := by
  cases hs : subs.find? (·.name = name) with
  | none => simpa [FirstNamed] using hs
  | some s =>
    obtain ⟨hname, before, after, rfl, hbefore⟩ := List.find?_eq_some_iff_append.mp hs
    exact ⟨by simpa using hname, before, after, rfl, fun t ht => by simpa using hbefore t ht⟩

section Agreement

variable {p q : Program} (hp : p.Assembled) (hq : q.Assembled) (hsubs : p.subroutines = q.subroutines)
include hp hq hsubs

theorem subroutine?_agree (name : Bytes) : p.subroutine? name = q.subroutine? name := by
  rw [subroutine?_eq_find? hp, subroutine?_eq_find? hq, hsubs]

/-- Calls find their subroutine in the one program as in the other. The recursion graph is drawn from those
that do. -/
theorem report_agree (hmain : p.main = q.main) (positions : List Position) :
    p.report positions = q.report positions := by
  have hcalls : p.calls = q.calls := by simp only [calls, hmain, hsubs]
  have hsites : p.callSites positions = q.callSites positions := by simp only [callSites, hcalls]
  have hrec : p.recursiveNames = q.recursiveNames := by funext resolved; simp only [recursiveNames, hsubs]
  have hfind : p.subroutine? = q.subroutine? := funext (subroutine?_agree hp hq hsubs)
  simp only [report, hsites, hfind, hrec]

theorem validate_agree (hmain : p.main = q.main) (positions : List Position) :
    p.validate positions = q.validate positions := by
  have hcheck : p.check = q.check := by simp only [check, hmain, hsubs]
  rw [validate, validate, hcheck, report_agree hp hq hsubs hmain]

end Agreement

theorem index_transparent (main : Circuit) (subs : List Subroutine) :
    (∀ name, (indexed main subs).subroutine? name = (bare main subs).subroutine? name ∧
      FirstNamed name subs ((indexed main subs).subroutine? name)) ∧
    ∀ positions, (indexed main subs).validate positions = (bare main subs).validate positions := by
  have hi := assembled_indexed main subs
  have hb := assembled_bare main subs
  refine ⟨fun name => ⟨subroutine?_agree hi hb rfl name, ?_⟩, validate_agree hi hb rfl rfl⟩
  rw [subroutine?_eq_find? hi]
  exact firstNamed_find? name subs

def names (p : Program) : List Bytes := p.subroutines.map Subroutine.name

theorem subroutine?_isSome {p : Program} (hp : p.Assembled) (name : Bytes) :
    (p.subroutine? name).isSome ↔ name ∈ p.names := by
  rw [subroutine?_eq_find? hp, List.find?_isSome, names, List.mem_map]
  simp only [decide_eq_true_eq]

end Program

end CircuitDesk
