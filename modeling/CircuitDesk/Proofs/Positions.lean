import CircuitDesk.Proofs.Tiling

namespace CircuitDesk

structure Position.Reaches (p q : Position) : Prop where
  file : q.file = p.file
  offset : p.offset ≤ q.offset
  line : p.line ≤ q.line
  column : 1 ≤ p.column → 1 ≤ q.column

namespace Position

theorem Reaches.refl (p : Position) : p.Reaches p := ⟨rfl, Nat.le_refl _, Nat.le_refl _, id⟩

theorem Reaches.trans {p q r : Position} (h : p.Reaches q) (h' : q.Reaches r) : p.Reaches r :=
  ⟨h'.file.trans h.file, Nat.le_trans h.offset h'.offset, Nat.le_trans h.line h'.line,
    fun hp => h'.column (h.column hp)⟩

theorem reaches_advance (p : Position) (s : Bytes) : p.Reaches (p.advance s) where
  file := rfl
  offset := Nat.le_add_right _ _
  line := Nat.le_add_right _ _
  column hp := by
    simp only [advance]
    split
    · exact Nat.le_add_right _ _
    · exact Nat.le_trans hp (Nat.le_add_right _ _)

end Position

namespace Token

open Tile (Cut flat)

theorem place_cons_stop (p : Position) (t : Tile) (ts : List Tile) :
    (place p (t :: ts)).2 = (place (p.advance t.text) ts).2 := by
  rw [place]
  cases t.kind <;> rfl

theorem place_offset (p : Position) (ts : List Tile) : (place p ts).2.offset = p.offset + (flat ts).length := by
  induction ts generalizing p with
  | nil => rfl
  | cons t ts ih => rw [place_cons_stop, ih, Position.advance, flat_cons, List.length_append, Nat.add_assoc]

theorem place_reaches (p : Position) (ts : List Tile) :
    p.Reaches (place p ts).2 ∧ ∀ t ∈ (place p ts).1, p.Reaches t.pos ∧ t.pos.Reaches (place p ts).2 := by
  induction ts generalizing p with
  | nil => exact ⟨.refl p, by simp [place]⟩
  | cons t ts ih =>
    obtain ⟨hstop, htokens⟩ := ih (p.advance t.text)
    have hadvance := p.reaches_advance t.text
    have hlater : ∀ u ∈ (place (p.advance t.text) ts).1,
        p.Reaches u.pos ∧ u.pos.Reaches (place (p.advance t.text) ts).2 := fun u hu =>
      ⟨hadvance.trans (htokens u hu).1, (htokens u hu).2⟩
    rw [place]
    cases t.kind with
    | none => exact ⟨hadvance.trans hstop, hlater⟩
    | some k =>
      refine ⟨hadvance.trans hstop, List.forall_mem_cons.mpr ⟨⟨.refl p, hadvance.trans hstop⟩, hlater⟩⟩

theorem place_ascending {ts : List Tile} (h : ∀ t ∈ ts, t.text ≠ []) (p : Position) :
    (place p ts).1.Pairwise fun t u => t.pos.offset < u.pos.offset := by
  induction ts generalizing p with
  | nil => exact .nil
  | cons t ts ih =>
    obtain ⟨hne, hts⟩ := List.forall_mem_cons.mp h
    have hlater := ih hts (p.advance t.text)
    rw [place]
    cases t.kind with
    | none => exact hlater
    | some k =>
      refine .cons (fun u hu => ?_) hlater
      have hreach := ((place_reaches (p.advance t.text) ts).2 u hu).1.offset
      have hpos := List.length_pos_iff.mpr hne
      simp only [Position.advance] at hreach ⊢
      omega

structure Inside (file text : Bytes) (p : Position) : Prop where
  file : p.file = file
  offset : p.offset ≤ text.length
  line : 1 ≤ p.line
  column : 1 ≤ p.column

theorem inside_place {file text : Bytes} {p : Position} (hp : (Position.start file).Reaches p)
    (hstop : p.Reaches (place (.start file) (tiles text).1).2) : Inside file text p where
  file := hp.file
  offset := by
    have hoffset := place_offset (.start file) (tiles text).1
    have hlength := congrArg List.length (flat_tiles text)
    have hle := hstop.offset
    rw [List.length_append] at hlength
    simp only [Position.start] at hoffset hle
    omega
  line := hp.line
  column := hp.column (Nat.le_refl 1)

theorem lex_inside {file text : Bytes} {ts : List Token} (h : lex file text = .ok ts) :
    ∀ t ∈ ts, Inside file text t.pos := by
  obtain ⟨-, rfl⟩ := lex_eq_ok.mp h
  obtain ⟨hstop, htokens⟩ := place_reaches (.start file) (tiles text).1
  intro t ht
  rcases List.mem_append.mp ht with ht | ht
  · exact inside_place (htokens t ht).1 (htokens t ht).2
  · rw [List.mem_singleton.mp ht]
    exact inside_place hstop (.refl _)

theorem lex_ascending {file text : Bytes} {u : List Token} {eof : Token} (h : lex file text = .ok (u ++ [eof])) :
    u.Pairwise fun t t' => t.pos.offset < t'.pos.offset := by
  obtain ⟨rfl, -⟩ := List.append_inj' (lex_eq_ok.mp h).2 rfl
  exact place_ascending (tile_ne_nil (cut_tiles text)) _

theorem lex_stuck {file text : Bytes} {e : LexFault} (h : lex file text = .error e) :
    Inside file text e.pos ∧ text.drop e.pos.offset = e.rest ∧ e.rest ≠ [] ∧ firstLexeme e.rest = none ∧
      ∃ ts, text.take e.pos.offset = flat ts ∧ Cut ts e.rest := by
  obtain ⟨hrest, rfl⟩ := lex_eq_error.mp h
  have hoffset : (place (.start file) (tiles text).1).2.offset = (flat (tiles text).1).length := by
    rw [place_offset]
    exact Nat.zero_add _
  refine ⟨inside_place (place_reaches _ _).1 (.refl _), ?_, hrest, firstLexeme_rest hrest, (tiles text).1, ?_,
    cut_tiles text⟩
  · have hdrop : (flat (tiles text).1 ++ (tiles text).2).drop (flat (tiles text).1).length = (tiles text).2 :=
      List.drop_left
    rwa [flat_tiles, ← hoffset] at hdrop
  · have htake : (flat (tiles text).1 ++ (tiles text).2).take (flat (tiles text).1).length = flat (tiles text).1 :=
      List.take_left
    rwa [flat_tiles, ← hoffset] at htake

end Token

end CircuitDesk
