import Mathlib

/-!
# Slices of a list

A reader who asks for a long list by slices of a given size asks at the multiples of
the size that are below the length. What these slices hold, one after the other, is the
list (`flatMap_slice`): nothing is left out and nothing comes twice.
-/

namespace Slices

variable {α : Type}

/-- At most `limit` items, from a position on. -/
def slice (l : List α) (offset limit : ℕ) : List α := (l.drop offset).take limit

/-- The multiples of a size that are below a length. -/
def offsets (limit total : ℕ) : List ℕ :=
  ((List.range total).map (fun k => k * limit)).filter (fun offset => decide (offset < total))

theorem slice_of_length_le {l : List α} {offset : ℕ} (h : l.length ≤ offset) (limit : ℕ) :
    slice l offset limit = [] := by
  rw [slice, List.drop_eq_nil_of_le h, List.take_nil]

theorem getElem?_slice (l : List α) (offset limit i : ℕ) :
    (slice l offset limit)[i]? = if i < limit then l[offset + i]? else none := by
  rw [slice, List.getElem?_take, List.getElem?_drop]

/-- Slices next to one another, from the front on. -/
theorem flatMap_slice_range (l : List α) (limit n : ℕ) :
    (List.range n).flatMap (fun k => slice l (k * limit) limit) = l.take (n * limit) := by
  induction n with
  | zero => rw [List.range_zero, List.flatMap_nil, Nat.zero_mul, List.take_zero]
  | succ n ih =>
    rw [List.range_succ, List.flatMap_append, ih, List.flatMap_singleton, Nat.succ_mul,
      List.take_add, slice]

/-- What gives nothing need not be asked. -/
theorem flatMap_filter {β : Type} {p : α → Bool} {f : α → List β} (l : List α)
    (h : ∀ a ∈ l, p a = false → f a = []) : (l.filter p).flatMap f = l.flatMap f := by
  induction l with
  | nil => rfl
  | cons a l ih =>
    obtain ⟨ha, hl⟩ := List.forall_mem_cons.mp h
    rw [List.flatMap_cons, ← ih hl]
    cases hp : p a with
    | true => rw [List.filter_cons_of_pos hp, List.flatMap_cons]
    | false => rw [List.filter_cons_of_neg (by simp [hp]), ha hp, List.nil_append]

/-- **The slices at the multiples of the size are the list.** -/
theorem flatMap_slice (l : List α) {limit : ℕ} (h : 0 < limit) :
    (offsets limit l.length).flatMap (fun offset => slice l offset limit) = l := by
  have hall : l.length ≤ l.length * limit := Nat.le_mul_of_pos_right _ h
  unfold offsets
  rw [flatMap_filter _ (fun offset _ hp => slice_of_length_le (by simpa using hp) limit),
    List.flatMap_map, flatMap_slice_range, List.take_of_length_le hall]

end Slices
