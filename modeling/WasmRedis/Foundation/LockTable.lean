import Mathlib

/-!
# Exclusive locks that nobody waits for

A table says who holds each lock. To try a lock is to take it if it is free and to be
told so at once if it is not; to unlock it is to give it back if it is one's own.

Each party keeps a list of the locks it has taken. `Holds` says that these lists are what
the table says, and that no lock is on a list twice; the two operations keep it, whoever
acts and in whatever order. Since the table gives a lock to one party at most, no lock is
then on the lists of two.
-/

/-- Who holds each lock. -/
abbrev LockTable (κ P : Type) := κ → Option P

namespace LockTable

variable {κ P : Type} [DecidableEq κ] [DecidableEq P]

/-- Take a lock if it is free. -/
def tryLock (p : P) (k : κ) (table : LockTable κ P) : Bool × LockTable κ P :=
  match table k with
  | some _ => (false, table)
  | none => (true, Function.update table k (some p))

/-- Give a lock back. -/
def unlock (p : P) (k : κ) (table : LockTable κ P) : LockTable κ P :=
  if table k = some p then Function.update table k none else table

/-- Give back all that one has: what becomes of the locks of a party that is no more. -/
def drop (p : P) (table : LockTable κ P) : LockTable κ P :=
  fun k => if table k = some p then none else table k

/-- The locks on the list of each party are those it holds. -/
structure Holds (table : LockTable κ P) (locks : P → List κ) : Prop where
  /-- A party holds what is on its list. -/
  eq_some_iff : ∀ p k, table k = some p ↔ k ∈ locks p
  /-- Nothing is on it twice. -/
  nodup : ∀ p, (locks p).Nodup

variable {table : LockTable κ P} {locks : P → List κ} {p : P} {k : κ}

omit [DecidableEq κ] [DecidableEq P] in
/-- Nobody holds a lock of a table that is empty. -/
theorem holds_empty : Holds (fun _ : κ => (none : Option P)) (fun _ => []) where
  eq_some_iff p k := by simp
  nodup p := List.nodup_nil

omit [DecidableEq P] in
/-- What trying a lock can do. -/
theorem tryLock_cases (p : P) (k : κ) (table : LockTable κ P) :
    tryLock p k table = (false, table)
      ∨ table k = none ∧ tryLock p k table = (true, Function.update table k (some p)) := by
  unfold tryLock
  cases htable : table k with
  | some _ => exact .inl rfl
  | none => exact .inr ⟨rfl, rfl⟩

/-- **One lock changes hands**: it goes to a party or to nobody, and one list changes, by
that lock at most. -/
theorem Holds.update (h : Holds table locks) {owner : Option P} {l : List κ} (hl : l.Nodup)
    (hk : owner = some p ↔ k ∈ l) (hrest : ∀ j, j ≠ k → (j ∈ l ↔ j ∈ locks p))
    (hothers : ∀ q, q ≠ p → owner ≠ some q ∧ k ∉ locks q) :
    Holds (Function.update table k owner) (Function.update locks p l) := by
  refine ⟨fun q j => ?_, fun q => ?_⟩
  · by_cases hj : j = k
    · subst hj
      by_cases hq : q = p
      · simp [hq, hk]
      · simp [hq, hothers q hq]
    · by_cases hq : q = p
      · simp [hq, hj, hrest, h.eq_some_iff]
      · simp [hq, hj, h.eq_some_iff]
  · by_cases hq : q = p
    · rwa [hq, Function.update_self]
    · rw [Function.update_of_ne hq]
      exact h.nodup q

/-- **A free lock is taken**, and written at the end of the list. -/
theorem Holds.taken (h : Holds table locks) (hfree : table k = none) :
    Holds (Function.update table k (some p)) (Function.update locks p (locks p ++ [k])) := by
  have hnot : ∀ q, k ∉ locks q := by
    intro q hq
    rw [← h.eq_some_iff, hfree] at hq
    cases hq
  refine h.update ?_ (by simp) (fun j hj => by simp [hj]) (fun q hq => ⟨?_, hnot q⟩)
  · rw [List.nodup_append_comm]
    exact List.nodup_cons.mpr ⟨hnot p, h.nodup p⟩
  · exact fun heq => hq (Option.some.inj heq).symm

/-- **The first lock of a list is given back.** -/
theorem Holds.unlock (h : Holds table locks) {rest : List κ} (hlocks : locks p = k :: rest) :
    Holds (LockTable.unlock p k table) (Function.update locks p rest) := by
  have hnodup := h.nodup p
  rw [hlocks, List.nodup_cons] at hnodup
  have hmine : table k = some p := (h.eq_some_iff p k).mpr (hlocks ▸ List.mem_cons_self)
  rw [LockTable.unlock, if_pos hmine]
  refine h.update hnodup.2 (by simp [hnodup.1]) (fun j hj => by simp [hlocks, hj])
    (fun q hq => ⟨(Option.some_ne_none q).symm, ?_⟩)
  rw [← h.eq_some_iff, hmine]
  exact fun heq => hq (Option.some.inj heq).symm

omit [DecidableEq κ] in
/-- **All the locks of a list are given back.** -/
theorem Holds.drop (h : Holds table locks) (p : P) :
    Holds (table.drop p) (Function.update locks p []) := by
  refine ⟨fun q k => ?_, fun q => ?_⟩
  · unfold LockTable.drop
    by_cases hq : q = p
    · subst hq
      rw [Function.update_self]
      by_cases hk : table k = some q
      · simp [hk]
      · simp [hk]
    · rw [Function.update_of_ne hq, ← h.eq_some_iff q k]
      by_cases hk : table k = some p
      · simp [hk, Ne.symm hq]
      · simp [hk]
  · by_cases hq : q = p
    · subst hq
      rw [Function.update_self]
      exact List.nodup_nil
    · rw [Function.update_of_ne hq]
      exact h.nodup q

end LockTable
