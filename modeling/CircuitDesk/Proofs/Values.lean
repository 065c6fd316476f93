import Mathlib.Data.List.Forall2
import CircuitDesk.Program.OfTree

namespace CircuitDesk.Tree

theorem bind_eq_ok {ε α β : Type} {x : Except ε α} {f : α → Except ε β} {b : β} :
    (x >>= f) = .ok b ↔ ∃ a, x = .ok a ∧ f a = .ok b := by
  cases x with
  | error e =>
    constructor
    · intro h
      cases h
    · rintro ⟨_, ⟨⟩, _⟩
  | ok a =>
    constructor
    · exact fun h => ⟨a, rfl, h⟩
    · rintro ⟨_, ⟨⟩, h⟩
      exact h

theorem mapError_eq_ok {ε ε' α : Type} {x : Except ε α} {f : ε → ε'} {a : α} :
    x.mapError f = .ok a ↔ x = .ok a := by
  cases x with
  | error e =>
    constructor
    · intro h
      cases h
    · intro h
      cases h
  | ok b =>
    constructor
    · intro h
      cases h
      rfl
    · intro h
      cases h
      rfl

theorem mapM_cons_eq_ok {α β : Type} {f : α → Checked β} {a : α} {as : List α} {bs : List β} :
    (a :: as).mapM f = .ok bs ↔ ∃ b later, f a = .ok b ∧ as.mapM f = .ok later ∧ bs = b :: later := by
  rw [List.mapM_cons, bind_eq_ok]
  constructor
  · rintro ⟨b, hb, h⟩
    obtain ⟨later, hlater, h⟩ := bind_eq_ok.mp h
    cases h
    exact ⟨b, later, hb, hlater, rfl⟩
  · rintro ⟨b, later, hb, hlater, rfl⟩
    exact ⟨b, hb, bind_eq_ok.mpr ⟨later, hlater, rfl⟩⟩

theorem mapM_nil_eq_ok {α β : Type} {f : α → Checked β} {bs : List β} :
    ([] : List α).mapM f = .ok bs ↔ bs = [] := by
  rw [List.mapM_nil]
  exact ⟨fun h => by cases h; rfl, fun h => by rw [h]; rfl⟩

theorem forall₂_of_mapM {α β : Type} {f : α → Checked β} {as : List α} {bs : List β} (h : as.mapM f = .ok bs) :
    List.Forall₂ (fun a b => f a = .ok b) as bs := by
  induction as generalizing bs with
  | nil =>
    rw [mapM_nil_eq_ok.mp h]
    exact .nil
  | cons a as ih =>
    obtain ⟨b, later, hb, hlater, rfl⟩ := mapM_cons_eq_ok.mp h
    exact .cons hb (ih hlater)

theorem exists_of_mapM {α β : Type} {f : α → Checked β} {as : List α} {bs : List β} (h : as.mapM f = .ok bs)
    {a : α} (ha : a ∈ as) : ∃ b ∈ bs, f a = .ok b := by
  obtain ⟨i, hi, rfl⟩ := List.getElem_of_mem ha
  have hforall := List.forall₂_iff_get.mp (forall₂_of_mapM h)
  exact ⟨_, List.getElem_mem (hforall.1 ▸ hi), hforall.2 i hi (hforall.1 ▸ hi)⟩

theorem mem_of_mapM {α β : Type} {f : α → Checked β} {as : List α} {bs : List β} (h : as.mapM f = .ok bs)
    {b : β} (hb : b ∈ bs) : ∃ a ∈ as, f a = .ok b := by
  obtain ⟨i, hi, rfl⟩ := List.getElem_of_mem hb
  have hforall := List.forall₂_iff_get.mp (forall₂_of_mapM h)
  exact ⟨_, List.getElem_mem (hforall.1 ▸ hi), hforall.2 i (hforall.1 ▸ hi) hi⟩

theorem length_of_mapM {α β : Type} {f : α → Checked β} {as : List α} {bs : List β} (h : as.mapM f = .ok bs) :
    bs.length = as.length := (forall₂_of_mapM h).length_eq.symm

theorem flatMap_of_mapM {α β γ : Type} {f : α → Checked β} {as : List α} {bs : List β} {g : β → List γ}
    {g' : α → List γ} (h : as.mapM f = .ok bs) (hg : ∀ a ∈ as, ∀ b, f a = .ok b → g b = g' a) :
    bs.flatMap g = as.flatMap g' := by
  induction as generalizing bs with
  | nil =>
    rw [mapM_nil_eq_ok.mp h]
    rfl
  | cons a as ih =>
    obtain ⟨b, later, hb, hlater, rfl⟩ := mapM_cons_eq_ok.mp h
    rw [List.flatMap_cons, List.flatMap_cons, hg a List.mem_cons_self b hb,
      ih hlater fun a' ha' => hg a' (List.mem_cons_of_mem a ha')]

def labelOf (p : Token × Token) : Checked WireLabel := do return ⟨← wireNumber p.1, unquoted p.2⟩

theorem labelOf_eq_ok {p : Token × Token} {l : WireLabel} :
    labelOf p = .ok l ↔ wireNumber p.1 = .ok l.wire ∧ unquoted p.2 = l.label := by
  rw [labelOf, bind_eq_ok]
  constructor
  · rintro ⟨w, hw, h⟩
    cases h
    exact ⟨hw, rfl⟩
  · rintro ⟨hw, hl⟩
    exact ⟨l.wire, hw, by rw [hl]; rfl⟩

theorem toWireLabels_flat (ps : List (Token × Token)) :
    toWireLabels (ps.flatMap fun (w, l) => [.leaf w, .leaf l]) = ps.mapM labelOf := by
  induction ps with
  | nil => rfl
  | cons p ps ih =>
    rw [List.flatMap_cons, List.cons_append, List.cons_append, List.nil_append, toWireLabels, ih, List.mapM_cons,
      labelOf]
    simp only [bind_assoc, pure_bind]

def Fresh {κ : Type} (seen keys : List κ) : Prop := keys.Nodup ∧ ∀ k ∈ keys, k ∉ seen

theorem fresh_nil {κ : Type} (seen : List κ) : Fresh seen [] := ⟨List.nodup_nil, by simp⟩

theorem fresh_unseen {κ : Type} {keys : List κ} : Fresh [] keys ↔ keys.Nodup :=
  ⟨fun h => h.1, fun h => ⟨h, by simp⟩⟩

theorem fresh_cons {κ : Type} {seen keys : List κ} {k : κ} :
    Fresh seen (k :: keys) ↔ k ∉ seen ∧ Fresh (k :: seen) keys := by
  simp only [Fresh, List.nodup_cons, List.mem_cons, forall_eq_or_imp, not_or]
  constructor
  · rintro ⟨⟨hk, hnodup⟩, hseen, hlater⟩
    exact ⟨hseen, hnodup, fun l hl => ⟨fun h => hk (h ▸ hl), hlater l hl⟩⟩
  · rintro ⟨hseen, hnodup, hlater⟩
    exact ⟨⟨fun h => (hlater k h).1 rfl, hnodup⟩, hseen, fun l hl => (hlater l hl).2⟩

theorem distinct_eq_ok {α κ : Type} {read : Tree → Checked α} {key : α → κ}
    (go : List κ → List Tree → Checked (List α)) (hnil : ∀ seen, go seen [] = .ok [])
    (hcons : ∀ {seen t ts as}, go seen (t :: ts) = .ok as ↔
      ∃ a later, read t = .ok a ∧ key a ∉ seen ∧ go (key a :: seen) ts = .ok later ∧ as = a :: later)
    {seen : List κ} {ts : List Tree} {as : List α} :
    go seen ts = .ok as ↔ ts.mapM read = .ok as ∧ Fresh seen (as.map key) := by
  induction ts generalizing seen as with
  | nil =>
    rw [hnil, mapM_nil_eq_ok]
    constructor
    · intro h
      cases h
      exact ⟨rfl, fresh_nil seen⟩
    · rintro ⟨rfl, -⟩
      rfl
  | cons t ts ih =>
    rw [hcons, mapM_cons_eq_ok]
    constructor
    · rintro ⟨a, later, ha, hseen, hlater, rfl⟩
      obtain ⟨hmap, hfresh⟩ := ih.mp hlater
      exact ⟨⟨a, later, ha, hmap, rfl⟩, fresh_cons.mpr ⟨hseen, hfresh⟩⟩
    · rintro ⟨⟨a, later, ha, hmap, rfl⟩, hfresh⟩
      obtain ⟨hseen, hfresh⟩ := fresh_cons.mp hfresh
      exact ⟨a, later, ha, hseen, ih.mpr ⟨hmap, hfresh⟩, rfl⟩

theorem toDeclarations_eq_ok {list : Bytes} {seen : List Wire} {ts : List Tree} {ds : List Declaration} :
    toDeclarations list seen ts = .ok ds ↔
      ts.mapM toDeclaration = .ok ds ∧ Fresh seen (ds.map Declaration.wire) := by
  refine distinct_eq_ok (toDeclarations list) (fun _ => rfl) ?_
  intro seen t ts ds
  constructor
  · intro h
    obtain ⟨d, hd, h⟩ := bind_eq_ok.mp h
    split at h
    · split at h <;> cases h
    · rename_i hseen
      obtain ⟨later, hlater, h⟩ := bind_eq_ok.mp h
      cases h
      exact ⟨d, later, hd, hseen, hlater, rfl⟩
  · rintro ⟨d, later, hd, hseen, hlater, rfl⟩
    refine bind_eq_ok.mpr ⟨d, hd, ?_⟩
    rw [if_neg hseen]
    exact bind_eq_ok.mpr ⟨later, hlater, rfl⟩

theorem toSubroutines_eq_ok {seen : List Bytes} {ts : List Tree} {ss : List Subroutine} :
    toSubroutines seen ts = .ok ss ↔
      ts.mapM toSubroutine = .ok ss ∧ Fresh seen (ss.map Subroutine.name) := by
  refine distinct_eq_ok toSubroutines (fun _ => rfl) ?_
  intro seen t ts ss
  constructor
  · intro h
    obtain ⟨s, hs, h⟩ := bind_eq_ok.mp h
    split at h
    · split at h <;> cases h
    · rename_i hseen
      obtain ⟨later, hlater, h⟩ := bind_eq_ok.mp h
      cases h
      exact ⟨s, later, hs, hseen, hlater, rfl⟩
  · rintro ⟨s, later, hs, hseen, hlater, rfl⟩
    refine bind_eq_ok.mpr ⟨s, hs, ?_⟩
    rw [if_neg hseen]
    exact bind_eq_ok.mpr ⟨later, hlater, rfl⟩

end CircuitDesk.Tree
