import CircuitDesk.Files

namespace CircuitDesk.Files

theorem contents?_put_self (fs : Files) (names : List Bytes) (contents : Bytes) :
    (fs.put names contents).contents? names = some contents := List.lookup_cons_self

theorem contents?_put_of_ne (fs : Files) {names there : List Bytes} (h : there ≠ names) (contents : Bytes) :
    (fs.put names contents).contents? there = fs.contents? there := by
  have hkeep : (fs.entries.filter (·.1 ≠ names)).lookup there = fs.entries.lookup there := by
    induction fs.entries with
    | nil => rfl
    | cons e entries ih =>
      by_cases he : e.1 = names
      · rw [List.filter_cons_of_neg (by simp [he]), ih, List.lookup_cons, beq_false_of_ne (by rwa [he])]
      · rw [List.filter_cons_of_pos (by simp [he]), List.lookup_cons, List.lookup_cons, ih]
  rw [contents?, put, List.lookup_cons, beq_false_of_ne h]
  exact hkeep

theorem isDirectory_put {fs : Files} {there : List Bytes} (h : fs.isDirectory there) (names : List Bytes)
    (contents : Bytes) : (fs.put names contents).isDirectory there := by
  simp only [isDirectory, Bool.or_eq_true, List.any_eq_true] at h ⊢
  rcases h with h | ⟨e, he, hbelow⟩
  · exact .inl h
  · by_cases hsame : e.1 = names
    · rw [hsame] at hbelow
      exact .inr ⟨(names, contents), List.mem_cons_self, hbelow⟩
    · exact .inr ⟨e, List.mem_cons_of_mem _ (List.mem_filter.mpr ⟨he, decide_eq_true hsame⟩), hbelow⟩

structure IsName (purpose : Purpose) (name : Bytes) (rest : List Bytes) : Prop where
  own : ¬ (name = [] ∨ name = [46])
  down : name ≠ [46, 46]
  bare : ¬ (purpose = .writing ∧ rest ≠ [] ∧ rest.all List.isEmpty)
  short : name.length ≤ maxNameLength

inductive Leads (fs : Files) (purpose : Purpose) : List Bytes → List Bytes → Target → Prop
  | here {here : List Bytes} : Leads fs purpose here [] .directory
  | stay {here rest : List Bytes} {name : Bytes} {t : Target} (hname : name = [] ∨ name = [46])
      (h : Leads fs purpose here rest t) : Leads fs purpose here (name :: rest) t
  | up {here rest : List Bytes} {t : Target} (h : Leads fs purpose here.dropLast rest t) :
      Leads fs purpose here ([46, 46] :: rest) t
  | down {here rest : List Bytes} {name : Bytes} {t : Target} (hname : IsName purpose name rest)
      (hnone : fs.contents? (here ++ [name]) = none) (hdirectory : fs.isDirectory (here ++ [name]))
      (h : Leads fs purpose (here ++ [name]) rest t) : Leads fs purpose here (name :: rest) t
  | file {here : List Bytes} {name contents : Bytes} (hname : IsName purpose name [])
      (hsome : fs.contents? (here ++ [name]) = some contents) :
      Leads fs purpose here [name] (.file (here ++ [name]) contents)
  | vacant {here : List Bytes} {name : Bytes} (hname : IsName purpose name [])
      (hnone : fs.contents? (here ++ [name]) = none) (hfree : fs.isDirectory (here ++ [name]) = false) :
      Leads fs purpose here [name] (.vacant (here ++ [name]))

theorem follow_name {fs : Files} {purpose : Purpose} {name : Bytes} {rest : List Bytes}
    (hname : IsName purpose name rest) (here : List Bytes) :
    fs.follow purpose here (name :: rest) = (fs.contents? (here ++ [name])).elim
      (if fs.isDirectory (here ++ [name]) then fs.follow purpose (here ++ [name]) rest
        else if rest = [] then .ok (.vacant (here ++ [name])) else .error .noSuchFile)
      fun contents => if rest = [] then .ok (.file (here ++ [name]) contents) else .error .notDirectory := by
  have hshort := Nat.not_lt.mpr hname.short
  rw [follow, if_neg hname.own, if_neg hname.down, if_neg hname.bare, if_neg hshort]
  cases hcontents : fs.contents? (here ++ [name]) <;> simp only [hcontents, Option.elim_none, Option.elim_some]

theorem leads_of_follow {fs : Files} {purpose : Purpose} {here path : List Bytes} {t : Target}
    (h : fs.follow purpose here path = .ok t) : fs.Leads purpose here path t := by
  induction path generalizing here with
  | nil =>
    cases h
    exact .here
  | cons name rest ih =>
    by_cases hstay : name = [] ∨ name = [46]
    · rw [follow, if_pos hstay] at h
      exact .stay hstay (ih h)
    by_cases hup : name = [46, 46]
    · rw [follow, if_neg hstay, if_pos hup] at h
      rw [hup]
      exact .up (ih h)
    by_cases hbare : purpose = .writing ∧ rest ≠ [] ∧ rest.all List.isEmpty
    · rw [follow, if_neg hstay, if_neg hup, if_pos hbare] at h
      cases h
    by_cases hlong : maxNameLength < name.length
    · rw [follow, if_neg hstay, if_neg hup, if_neg hbare, if_pos hlong] at h
      cases h
    have hname : IsName purpose name rest := ⟨hstay, hup, hbare, Nat.not_lt.mp hlong⟩
    rw [follow_name hname] at h
    cases hcontents : fs.contents? (here ++ [name]) with
    | some contents =>
      rw [hcontents, Option.elim_some] at h
      split at h
      · next hlast =>
        cases h
        subst hlast
        exact .file hname hcontents
      · cases h
    | none =>
      rw [hcontents, Option.elim_none] at h
      split at h
      · next hdirectory => exact .down hname hcontents hdirectory (ih h)
      · next hfree =>
        split at h
        · next hlast =>
          cases h
          subst hlast
          exact .vacant hname hcontents (Bool.eq_false_iff.mpr hfree)
        · cases h

theorem follow_of_leads {fs : Files} {purpose : Purpose} {here path : List Bytes} {t : Target}
    (h : fs.Leads purpose here path t) : fs.follow purpose here path = .ok t := by
  induction h with
  | here => rw [follow]
  | stay hname h ih => rw [follow, if_pos hname, ih]
  | up h ih => rw [follow, if_neg (by decide), if_pos rfl, ih]
  | down hname hnone hdirectory h ih => rw [follow_name hname, hnone, ← ih]; exact if_pos hdirectory
  | file hname hsome => rw [follow_name hname, hsome]; rfl
  | vacant hname hnone hfree => rw [follow_name hname, hnone, hfree]; rfl

def Target.IsAt (t : Target) (names : List Bytes) : Prop := t = .vacant names ∨ ∃ contents, t = .file names contents

theorem Leads.no_directory {fs : Files} {purpose : Purpose} {here path there : List Bytes} {t : Target}
    (h : fs.Leads purpose here path t) (ht : t.IsAt there) : ¬ (fs.contents? there = none ∧ fs.isDirectory there) := by
  induction h with
  | here => rcases ht with h | ⟨_, h⟩ <;> cases h
  | stay _ _ ih => exact ih ht
  | up _ ih => exact ih ht
  | down _ _ _ _ ih => exact ih ht
  | file _ hsome =>
    obtain ⟨_, h⟩ := ht.resolve_left (by simp)
    cases h
    simp [hsome]
  | vacant _ _ hfree =>
    cases ht.resolve_right (by simp)
    simp [hfree]

theorem Leads.put {fs : Files} {here path there : List Bytes} {t : Target} (h : fs.Leads .writing here path t)
    (ht : t.IsAt there) (contents : Bytes) :
    (fs.put there contents).Leads .reading here path (.file there contents) := by
  have hplace := h.no_directory ht
  have reading {name : Bytes} {rest : List Bytes} (hname : IsName .writing name rest) : IsName .reading name rest :=
    ⟨hname.own, hname.down, by simp, hname.short⟩
  induction h with
  | here => rcases ht with h | ⟨_, h⟩ <;> cases h
  | stay hname _ ih => exact .stay hname (ih ht)
  | up _ ih => exact .up (ih ht)
  | @down here _ name _ hname hnone hdirectory _ ih =>
    -- the directories on the way are other places than the file
    have hother : here ++ [name] ≠ there := by
      rintro rfl
      exact hplace ⟨hnone, hdirectory⟩
    exact .down (reading hname) (by rwa [contents?_put_of_ne fs hother]) (isDirectory_put hdirectory _ _) (ih ht)
  | file hname _ =>
    obtain ⟨_, h⟩ := ht.resolve_left (by simp)
    cases h
    exact .file (reading hname) (contents?_put_self fs _ _)
  | vacant hname _ _ =>
    cases ht.resolve_right (by simp)
    exact .file (reading hname) (contents?_put_self fs _ _)

def IsWritable (fs : Files) (path : Bytes) : Prop := ∃ t names, fs.resolve .writing path = .ok t ∧ t.IsAt names

theorem write_eq_overwrite {fs : Files} {path : Bytes} {t : Target} {names : List Bytes}
    (hresolve : fs.resolve .writing path = .ok t) (ht : t.IsAt names) (contents : Bytes) :
    fs.write path contents = fs.overwrite path names contents := by
  rw [write, hresolve]
  rcases ht with rfl | ⟨_, rfl⟩ <;> rfl

theorem exists_refused {fs : Files} {path : Bytes} (h : ¬ fs.IsWritable path) (contents : Bytes) :
    ∃ e, fs.write path contents = .refused e := by
  rw [write]
  cases hresolve : fs.resolve .writing path with
  | error c => exact ⟨_, rfl⟩
  | ok t =>
    cases t with
    | directory => exact ⟨_, rfl⟩
    | file names old => exact absurd ⟨_, names, hresolve, .inr ⟨old, rfl⟩⟩ h
    | vacant names => exact absurd ⟨_, names, hresolve, .inl rfl⟩ h

/-- The files when a path was written to: there is a file with these contents, and no other file has changed. -/
structure Puts (fs : Files) (path contents : Bytes) (fs' : Files) : Prop where
  place : ∃ names, fs'.resolve .reading path = .ok (.file names contents) ∧
    ∀ there, there ≠ names → fs'.contents? there = fs.contents? there
  here : fs'.here = fs.here

theorem Puts.read {fs fs' : Files} {path contents : Bytes} (h : fs.Puts path contents fs') :
    fs'.read path = .ok contents := by
  obtain ⟨names, hread, -⟩ := h.place
  rw [Files.read, hread]

theorem resolve_failures (fs : Files) (failures : List (Option Failure)) (purpose : Purpose) (path : Bytes) :
    { fs with failures := failures }.resolve purpose path = fs.resolve purpose path := by
  have hfollow (here path : List Bytes) :
      { fs with failures := failures }.follow purpose here path = fs.follow purpose here path := by
    induction path generalizing here with
    | nil => rfl
    | cons name rest ih =>
      simp only [follow, ih]
      rfl
  rw [resolve, resolve, hfollow]

theorem puts_put {fs : Files} {path : Bytes} {t : Target} {names : List Bytes}
    (hresolve : fs.resolve .writing path = .ok t) (ht : t.IsAt names) (contents : Bytes) :
    fs.Puts path contents (fs.put names contents) := by
  refine ⟨⟨names, ?_, fun there h => contents?_put_of_ne fs h contents⟩, rfl⟩
  unfold resolve at hresolve ⊢
  split at hresolve
  · cases hresolve
  next hvalid =>
    split at hresolve
    · cases hresolve
    next hsome =>
      split at hresolve
      · cases hresolve
      next hshort =>
        rw [if_neg hvalid, if_neg hsome, if_neg hshort]
        exact follow_of_leads ((leads_of_follow hresolve).put ht contents)

theorem write_cases (fs : Files) (path contents : Bytes) :
    (¬ fs.IsWritable path ∧ ∃ e, fs.write path contents = .refused e) ∨
    (fs.IsWritable path ∧ ∃ f fs', fs.failure? = some f ∧ fs.Puts path (contents.take f.kept) fs' ∧
      fs.write path contents = .cutOff fs' ⟨f.action, path, f.cause⟩) ∨
    (fs.IsWritable path ∧ fs.failure? = none ∧ ∃ fs', fs.Puts path contents fs' ∧
      fs.write path contents = .done fs') := by
  by_cases hwritable : fs.IsWritable path
  · obtain ⟨t, names, hresolve, ht⟩ := id hwritable
    have hopened : { fs with failures := fs.failures.tail }.resolve .writing path = .ok t := by
      rw [resolve_failures, hresolve]
    have hputs (contents : Bytes) :
        fs.Puts path contents ({ fs with failures := fs.failures.tail }.put names contents) := by
      obtain ⟨hplace, hhere⟩ := puts_put hopened ht contents
      exact ⟨hplace, hhere⟩
    rw [write_eq_overwrite hresolve ht, overwrite]
    cases hfailure : fs.failure? with
    | none => exact .inr (.inr ⟨hwritable, rfl, _, hputs _, rfl⟩)
    | some f => exact .inr (.inl ⟨hwritable, f, _, rfl, hputs _, rfl⟩)
  · exact .inl ⟨hwritable, exists_refused hwritable contents⟩

theorem exists_done_iff {fs : Files} {path : Bytes} (contents : Bytes) :
    (∃ fs', fs.write path contents = .done fs') ↔ fs.IsWritable path ∧ fs.failure? = none := by
  rcases fs.write_cases path contents with ⟨hnot, e, h⟩ | ⟨-, f, _, hfailure, -, h⟩ | ⟨hwritable, hnone, fs', -, h⟩
  · simp [h, hnot]
  · simp [h, hfailure]
  · simp [h, hwritable, hnone]

theorem puts_of_done {fs fs' : Files} {path contents : Bytes} (h : fs.write path contents = .done fs') :
    fs.failure? = none ∧ fs.Puts path contents fs' := by
  rcases fs.write_cases path contents with ⟨-, e, h'⟩ | ⟨-, f, _, -, -, h'⟩ | ⟨-, hnone, fs'', hputs, h'⟩ <;>
    rw [h] at h' <;> cases h'
  exact ⟨hnone, hputs⟩

theorem puts_of_cutOff {fs fs' : Files} {path contents : Bytes} {e : Error}
    (h : fs.write path contents = .cutOff fs' e) :
    ∃ f, fs.failure? = some f ∧ fs.Puts path (contents.take f.kept) fs' := by
  rcases fs.write_cases path contents with ⟨-, e', h'⟩ | ⟨-, f, fs'', hfailure, hputs, h'⟩ | ⟨-, -, _, -, h'⟩ <;>
    rw [h] at h' <;> cases h'
  exact ⟨f, hfailure, hputs⟩

theorem not_isWritable_of_refused {fs : Files} {path contents : Bytes} {e : Error}
    (h : fs.write path contents = .refused e) : ¬ fs.IsWritable path := by
  rcases fs.write_cases path contents with ⟨hnot, -⟩ | ⟨-, f, _, -, -, h'⟩ | ⟨-, -, _, -, h'⟩
  · exact hnot
  all_goals
    rw [h] at h'
    cases h'

end CircuitDesk.Files
