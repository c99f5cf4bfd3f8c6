import Mathlib
import WasmRedis.Foundation.GoMap

/-!
# Maps whose entries expire

The entries of a map may have a lifetime: at each instant some of them are
*dead*, and a dead entry stays dead. A dead entry need not be removed at once;
what can be observed of the map is what is *alive* in it (`alive`). Two maps
that agree on what is alive from an instant on (`AgreeFrom`) are the same to
anyone who reads them from then on, however many dead entries one of them still
holds and the other has dropped. Writing the same thing to both keeps them in
agreement, and so does dropping dead entries from one.
-/

namespace Expiry

variable {τ α β : Type} [Preorder τ] [DecidableEq α]

/-- Death is for good. -/
def Lasting (dead : τ → β → Bool) : Prop :=
  ∀ t t' b, t ≤ t' → dead t b = true → dead t' b = true

omit [Preorder τ] in
/-- What is alive at a key, at an instant. -/
def alive (dead : τ → β → Bool) (t : τ) (m : GoMap α β) (k : α) : Option β :=
  (m.lookup k).filter (fun b => !dead t b)

/-- From the instant `t` on, the same entries are alive in both maps. -/
def AgreeFrom (dead : τ → β → Bool) (t : τ) (m m' : GoMap α β) : Prop :=
  ∀ t', t ≤ t' → ∀ k, alive dead t' m k = alive dead t' m' k

variable {dead : τ → β → Bool} {t t' : τ} {m m' m'' : GoMap α β} {k : α} {b : β}

omit [Preorder τ] in
theorem alive_of_lookup_eq (h : m.lookup k = m'.lookup k) :
    alive dead t m k = alive dead t m' k := congrArg _ h

omit [Preorder τ] in
theorem alive_eq_some_iff : alive dead t m k = some b ↔ m.lookup k = some b ∧ dead t b = false := by
  unfold alive
  rw [Option.filter_eq_some_iff, Bool.not_eq_true']

theorem AgreeFrom.refl : AgreeFrom dead t m m := fun _ _ _ => rfl

theorem AgreeFrom.symm (h : AgreeFrom dead t m m') : AgreeFrom dead t m' m :=
  fun t' ht k => (h t' ht k).symm

theorem AgreeFrom.trans (h : AgreeFrom dead t m m') (h' : AgreeFrom dead t m' m'') :
    AgreeFrom dead t m m'' := fun t' ht k => (h t' ht k).trans (h' t' ht k)

theorem AgreeFrom.mono (h : AgreeFrom dead t m m') (ht : t ≤ t') : AgreeFrom dead t' m m' :=
  fun t'' ht' k => h t'' (ht.trans ht') k

/-- The same write keeps two maps in agreement. -/
theorem AgreeFrom.insert (h : AgreeFrom dead t m m') (k : α) (b : β) :
    AgreeFrom dead t (m.insert k b) (m'.insert k b) := by
  intro t' ht k'
  by_cases hk : k' = k
  · subst hk
    exact alive_of_lookup_eq (by rw [Finmap.lookup_insert, Finmap.lookup_insert])
  · unfold alive
    rw [Finmap.lookup_insert_of_ne m hk, Finmap.lookup_insert_of_ne m' hk]
    exact h t' ht k'

/-- The same removal keeps two maps in agreement. -/
theorem AgreeFrom.erase (h : AgreeFrom dead t m m') (k : α) :
    AgreeFrom dead t (m.erase k) (m'.erase k) := by
  intro t' ht k'
  by_cases hk : k' = k
  · subst hk
    exact alive_of_lookup_eq (by rw [Finmap.lookup_erase, Finmap.lookup_erase])
  · unfold alive
    rw [Finmap.lookup_erase_ne hk, Finmap.lookup_erase_ne hk]
    exact h t' ht k'

/-- **Dropping dead entries is not observed.** If every entry of `m` that is
alive at some instant from `t` on is kept, and nothing else is in `m'`, the two
agree from `t` on. -/
theorem AgreeFrom.of_dropped
    (h : ∀ k, m'.lookup k = m.lookup k
      ∨ m'.lookup k = none ∧ ∀ b, m.lookup k = some b → dead t b = true)
    (hdead : Lasting dead) : AgreeFrom dead t m' m := by
  intro t' ht k
  rcases h k with heq | ⟨hnone, hall⟩
  · exact alive_of_lookup_eq heq
  · unfold alive
    rw [hnone]
    cases hk : m.lookup k with
    | none => rfl
    | some b =>
      rw [Option.filter_some, hdead t t' b ht (hall b hk)]
      rfl

/-- Removing a dead entry is not observed. -/
theorem AgreeFrom.erase_dead (hdead : Lasting dead)
    (h : ∀ b, m.lookup k = some b → dead t b = true) : AgreeFrom dead t (m.erase k) m := by
  refine AgreeFrom.of_dropped (fun k' => ?_) hdead
  by_cases hk : k' = k
  · subst hk
    exact Or.inr ⟨Finmap.lookup_erase _ _, h⟩
  · exact Or.inl (Finmap.lookup_erase_ne hk)

end Expiry
