import CircuitDesk.Proofs.Defects
import CircuitDesk.Proofs.Values

/-!
Readings that find what is wrong. Such a reading fails at one of the tokens at which something is wrong, and it
succeeds only if there is no such token; this is kept when readings are put together.
-/
namespace CircuitDesk.Tree

open Bytes (natValue)

theorem bind_eq_error {ε α β : Type} {x : Except ε α} {f : α → Except ε β} {e : ε} :
    (x >>= f) = .error e ↔ x = .error e ∨ ∃ a, x = .ok a ∧ f a = .error e := by
  cases x with
  | error e' => simp [bind, Except.bind]
  | ok a => simp [bind, Except.bind]

/-- The reading is refused at one of the tokens, and it is accepted only if there is none. -/
structure Finds {α : Type} (wrong : Token → Prop) (x : Checked α) : Prop where
  refused : ∀ {e}, x = .error e → ∃ tok, wrong tok ∧ e.pos = tok.pos
  accepted : ∀ {a}, x = .ok a → ∀ tok, ¬ wrong tok

section

variable {α β : Type} {wrong wrong' : Token → Prop}

theorem Finds.congr {x : Checked α} (h : Finds wrong x) (hiff : ∀ tok, wrong' tok ↔ wrong tok) : Finds wrong' x where
  refused he := by
    obtain ⟨tok, htok, hpos⟩ := h.refused he
    exact ⟨tok, (hiff tok).mpr htok, hpos⟩
  accepted ha tok htok := h.accepted ha tok ((hiff tok).mp htok)

theorem finds_ok {a : α} (h : ∀ tok, ¬ wrong tok) : Finds wrong (.ok a) where
  refused he := by cases he
  accepted _ := h

theorem finds_nothing (a : α) : Finds (fun _ => False) (.ok a) := finds_ok fun _ => id

theorem finds_fault {t : Token} {literal : Bytes} {cause : SemanticCause} (h : wrong t) :
    Finds wrong (fault t literal cause : Checked α) where
  refused he := by
    cases he
    exact ⟨t, h, rfl⟩
  accepted ha := by cases ha

theorem Finds.bind {x : Checked α} {f : α → Checked β} (hx : Finds wrong x)
    (hf : ∀ a, x = .ok a → Finds wrong' (f a)) : Finds (fun tok => wrong tok ∨ wrong' tok) (x >>= f) where
  refused {e} he := by
    cases hx' : x with
    | error e' =>
      rw [hx'] at he
      cases he
      obtain ⟨tok, htok, hpos⟩ := hx.refused hx'
      exact ⟨tok, .inl htok, hpos⟩
    | ok a =>
      rw [hx'] at he
      obtain ⟨tok, htok, hpos⟩ := (hf a hx').refused he
      exact ⟨tok, .inr htok, hpos⟩
  accepted hb tok htok := by
    obtain ⟨a, ha, hb⟩ := bind_eq_ok.mp hb
    exact htok.elim (hx.accepted ha tok) ((hf a ha).accepted hb tok)

theorem Finds.map {x : Checked α} (h : Finds wrong x) (f : α → β) : Finds wrong (x >>= fun a => .ok (f a)) :=
  (h.bind fun a _ => finds_nothing (f a)).congr fun _ => (or_iff_left id).symm

theorem finds_mapM {wrong : α → Token → Prop} {read : α → Checked β} {as : List α}
    (h : ∀ a ∈ as, Finds (wrong a) (read a)) : Finds (fun tok => ∃ a ∈ as, wrong a tok) (as.mapM read) := by
  induction as with
  | nil => exact finds_ok (by simp)
  | cons a as ih =>
    rw [List.mapM_cons]
    refine ((h a List.mem_cons_self).bind fun b _ => (ih fun a' ha' =>
      h a' (List.mem_cons_of_mem a ha')).map _).congr ?_
    simp

end

theorem number?_eq_none {ds : Bytes} : number? ds = none ↔ Integer64.bound ≤ natValue ds := by
  simp [number?]

theorem number?_eq_some {ds : Bytes} {n : Int64} :
    number? ds = some n ↔ natValue ds < Integer64.bound ∧ Int64.ofNat (natValue ds) = n := by
  simp [number?]

theorem finds_wireNumber (t : Token) : Finds (fun tok => tok = t ∧ BadWire t) (wireNumber t) := by
  rw [wireNumber]
  split
  · rename_i hsign
    exact finds_fault ⟨rfl, .inl (.inl hsign)⟩
  · rename_i hplus
    split
    · rename_i hsign
      exact finds_fault ⟨rfl, .inl (.inr hsign)⟩
    · rename_i hminus
      split
      · rename_i hnumber
        refine finds_ok ?_
        rintro tok ⟨rfl, hsigned | hlarge⟩
        · exact hsigned.elim hplus hminus
        · rw [number?_eq_none.mpr hlarge] at hnumber
          cases hnumber
      · rename_i hnumber
        exact finds_fault ⟨rfl, .inr (number?_eq_none.mp hnumber)⟩

theorem finds_controlRef (t : Token) : Finds (fun tok => tok = t ∧ BadReference t) (controlRef t) := by
  rw [controlRef]
  split
  · rename_i htext
    refine finds_fault ⟨rfl, .inl ?_⟩
    simp [Signed, htext]
  · rename_i sign ds htext
    split
    · rename_i hsign
      split
      · rename_i hnumber
        refine finds_ok ?_
        rintro tok ⟨rfl, hsigned | hlarge⟩
        · simp [Signed, htext] at hsigned
          exact hsign.elim hsigned.1 hsigned.2
        · rw [htext, List.drop_one, List.tail_cons] at hlarge
          rw [number?_eq_none.mpr hlarge] at hnumber
          cases hnumber
      · rename_i hnumber
        refine finds_fault ⟨rfl, .inr ?_⟩
        rw [htext, List.drop_one, List.tail_cons]
        exact number?_eq_none.mp hnumber
    · rename_i hsign
      refine finds_fault ⟨rfl, .inl ?_⟩
      simpa [Signed, htext] using hsign

theorem wireNumber_eq_ok {t : Token} {w : Wire} (h : wireNumber t = .ok w) :
    natValue t.text < Integer64.bound ∧ Int64.ofNat (natValue t.text) = w := by
  rw [wireNumber] at h
  split at h
  · cases h
  · split at h
    · cases h
    · split at h
      · rename_i hnumber
        cases h
        exact number?_eq_some.mp hnumber
      · cases h

theorem ofNat_inj_of_lt {m n : Nat} (hm : m < Integer64.bound) (hn : n < Integer64.bound)
    (h : Int64.ofNat m = Int64.ofNat n) : m = n := by
  have hm' := Int64.toInt_ofNat_of_lt hm
  have hn' := Int64.toInt_ofNat_of_lt hn
  rw [h] at hm'
  omega

section Distinct

variable {α κ : Type} {read : Tree → Checked α} {key : α → κ}

theorem sublist_of_mapM {s t : Tree} {ts : List Tree} {as : List α} (h : ts.mapM read = .ok as)
    (hsub : [s, t].Sublist ts) : ∃ a b, read s = .ok a ∧ read t = .ok b ∧ [a, b].Sublist as := by
  induction ts generalizing as with
  | nil => cases hsub
  | cons u ts ih =>
    obtain ⟨c, later, hc, hlater, rfl⟩ := mapM_cons_eq_ok.mp h
    cases hsub with
    | cons _ hsub =>
      obtain ⟨a, b, ha, hb, hab⟩ := ih hlater hsub
      exact ⟨a, b, ha, hb, hab.cons c⟩
    | cons_cons _ hsub =>
      obtain ⟨b, hb, hread⟩ := exists_of_mapM hlater (List.singleton_sublist.mp hsub)
      exact ⟨c, b, hc, hread, .cons_cons c (List.singleton_sublist.mpr hb)⟩

theorem distinct_eq_error {place : Tree → Position} (go : List κ → List Tree → Checked (List α))
    (hnil : ∀ seen, go seen [] = .ok [])
    (hcons : ∀ {seen t ts e}, go seen (t :: ts) = .error e → read t = .error e ∨
      ∃ a, read t = .ok a ∧ (key a ∈ seen ∧ e.pos = place t ∨ go (key a :: seen) ts = .error e))
    {seen : List κ} {ts : List Tree} {e : SemanticFault} (h : go seen ts = .error e) :
    (∃ t ∈ ts, read t = .error e) ∨ ∃ t ∈ ts, ∃ a, read t = .ok a ∧ e.pos = place t ∧
      (key a ∈ seen ∨ ∃ s b, [s, t].Sublist ts ∧ read s = .ok b ∧ key b = key a) := by
  induction ts generalizing seen with
  | nil =>
    rw [hnil] at h
    cases h
  | cons t ts ih =>
    rcases hcons h with h | ⟨a, ha, ⟨hseen, hpos⟩ | h⟩
    · exact .inl ⟨t, List.mem_cons_self, h⟩
    · exact .inr ⟨t, List.mem_cons_self, a, ha, hpos, .inl hseen⟩
    · rcases ih h with ⟨u, hu, he⟩ | ⟨u, hu, b, hb, hpos, hclash⟩
      · exact .inl ⟨u, List.mem_cons_of_mem t hu, he⟩
      · -- the key was seen before these items, or it is that of the first of them or of a later one
        refine .inr ⟨u, List.mem_cons_of_mem t hu, b, hb, hpos, ?_⟩
        rcases hclash with hmem | ⟨s, c, hsub, hs, hkey⟩
        · rcases List.mem_cons.mp hmem with hkey | hmem
          · exact .inr ⟨t, a, .cons_cons t (List.singleton_sublist.mpr hu), ha, hkey.symm⟩
          · exact .inl hmem
        · exact .inr ⟨s, c, hsub.cons t, hs, hkey⟩

theorem finds_distinct {place : Tree → Position} (wrong : Tree → Token → Prop) (clash : Tree → Tree → Token → Prop)
    (go : List κ → List Tree → Checked (List α)) (hnil : ∀ seen, go seen [] = .ok [])
    (hcons : ∀ {seen t ts e}, go seen (t :: ts) = .error e → read t = .error e ∨
      ∃ a, read t = .ok a ∧ (key a ∈ seen ∧ e.pos = place t ∨ go (key a :: seen) ts = .error e))
    (hok : ∀ {seen ts as}, go seen ts = .ok as ↔ ts.mapM read = .ok as ∧ Fresh seen (as.map key)) {ts : List Tree}
    (hread : ∀ t ∈ ts, Finds (wrong t) (read t))
    (hclash : ∀ {s t a b}, s ∈ ts → t ∈ ts → read s = .ok a → read t = .ok b →
      (key a = key b → ∃ tok, clash s t tok ∧ tok.pos = place t) ∧ ∀ tok, clash s t tok → key a = key b) :
    Finds (fun tok => (∃ t ∈ ts, wrong t tok) ∨ ∃ s t, [s, t].Sublist ts ∧ clash s t tok) (go [] ts) where
  refused {e} he := by
    rcases distinct_eq_error go hnil hcons he with ⟨t, ht, he⟩ | ⟨t, ht, a, ha, hpos, hseen | ⟨s, b, hsub, hb, hkey⟩⟩
    · obtain ⟨tok, hwrong, hpos⟩ := (hread t ht).refused he
      exact ⟨tok, .inl ⟨t, ht, hwrong⟩, hpos⟩
    · cases hseen
    · obtain ⟨tok, hsame, htok⟩ := (hclash (hsub.subset List.mem_cons_self) ht hb ha).1 hkey
      exact ⟨tok, .inr ⟨s, t, hsub, hsame⟩, by rw [hpos, htok]⟩
  accepted {as} has tok := by
    obtain ⟨hmap, hfresh⟩ := hok.mp has
    rintro (⟨t, ht, hwrong⟩ | ⟨s, t, hsub, hsame⟩)
    · obtain ⟨a, -, ha⟩ := exists_of_mapM hmap ht
      exact (hread t ht).accepted ha tok hwrong
    · obtain ⟨a, b, ha, hb, hab⟩ := sublist_of_mapM hmap hsub
      have hmem : s ∈ ts ∧ t ∈ ts := ⟨hsub.subset (by simp), hsub.subset (by simp)⟩
      have hkey := (hclash hmem.1 hmem.2 ha hb).2 tok hsame
      have hne : [key a, key b].Nodup := (hab.map key).nodup hfresh.1
      simp [hkey] at hne

end Distinct

end CircuitDesk.Tree
