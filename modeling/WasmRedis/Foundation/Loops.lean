import Mathlib

/-!
# Loops that stop at an error

A loop of Go over some items, whose body may return an error: it goes through the
items in order, and returns at the first error. `forEach_invariant` and
`forRange_invariant` are the rules by which such a loop is shown to come to its end:
a statement about what has been done, which one round of the body carries on to the
next item without an error.
-/

namespace Loop

variable {α ε σ : Type}

/-- `for _, a := range items { … }`, with a body that may return. -/
def forEach (f : α → σ → Option ε × σ) : List α → σ → Option ε × σ
  | [], s => (none, s)
  | a :: items, s =>
    match f a s with
    | (some err, s) => (some err, s)
    | (none, s) => forEach f items s

/-- `for i := 0; i < n; i++ { … }`. -/
def forRange (f : ℕ → σ → Option ε × σ) (n : ℤ) : σ → Option ε × σ :=
  forEach f (List.range n.toNat)

/-- **The invariant rule.** -/
theorem forEach_invariant {f : α → σ → Option ε × σ} {items : List α} {s : σ}
    (I : List α → σ → Prop) (h0 : I [] s)
    (hstep : ∀ done a rest s, items = done ++ a :: rest → I done s →
      (f a s).1 = none ∧ I (done ++ [a]) (f a s).2) :
    (forEach f items s).1 = none ∧ I items (forEach f items s).2 := by
  have hloop : ∀ rest done s, items = done ++ rest → I done s →
      (forEach f rest s).1 = none ∧ I items (forEach f rest s).2 := by
    intro rest
    induction rest with
    | nil =>
      intro done s hitems h
      rw [List.append_nil] at hitems
      exact ⟨rfl, hitems ▸ h⟩
    | cons a rest ih =>
      intro done s hitems h
      obtain ⟨hnone, hnext⟩ := hstep done a rest s hitems h
      rw [forEach]
      generalize f a s = r at hnone hnext ⊢
      obtain ⟨_, s'⟩ := r
      obtain rfl := hnone
      exact ih (done ++ [a]) s' (by rw [hitems, List.append_assoc, List.singleton_append]) hnext
  exact hloop items [] s rfl h0

/-- **The invariant rule of a loop that counts.** -/
theorem forRange_invariant {f : ℕ → σ → Option ε × σ} {n : ℤ} {s : σ} (I : ℕ → σ → Prop)
    (h0 : I 0 s)
    (hstep : ∀ i s, i < n.toNat → I i s → (f i s).1 = none ∧ I (i + 1) (f i s).2) :
    (forRange f n s).1 = none ∧ I n.toNat (forRange f n s).2 := by
  have hloop : (forRange f n s).1 = none
      ∧ I (List.range n.toNat).length (forRange f n s).2 :=
    forEach_invariant (fun done s => I done.length s) h0 (fun done i rest s hitems h => by
      have hpos : (List.range n.toNat)[done.length]? = some i := by
        rw [hitems, List.getElem?_append_right le_rfl, Nat.sub_self, List.getElem?_cons_zero]
      obtain ⟨hlt, hi⟩ := List.getElem?_eq_some_iff.mp hpos
      rw [List.length_range] at hlt
      rw [List.getElem_range] at hi
      rw [List.length_append, List.length_singleton]
      exact hi ▸ hstep done.length s hlt h)
  rwa [List.length_range] at hloop

/-- What every round keeps is kept, whether the loop comes to its end or not. -/
theorem forEach_preserves {f : α → σ → Option ε × σ} (I : σ → Prop)
    (hstep : ∀ a s, I s → I (f a s).2) (items : List α) {s : σ} (h : I s) :
    I (forEach f items s).2 := by
  induction items generalizing s with
  | nil => exact h
  | cons a items ih =>
    have hnext := hstep a s h
    rw [forEach]
    generalize f a s = r at hnext ⊢
    obtain ⟨_ | err, s'⟩ := r
    · exact ih hnext
    · exact hnext

end Loop
