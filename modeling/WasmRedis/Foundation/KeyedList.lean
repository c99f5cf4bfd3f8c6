import Mathlib

/-!
# Lists of items with a key

An item of a list is known by its key, found by a search from the front, and
changed where it stands. If the keys are all different, the change concerns
one item: `countP_change` says how it moves every count of the list, which is
what a program that keeps its counts up to date has to do.
-/

namespace KeyedList

variable {α β κ : Type} [DecidableEq κ] (key : α → κ)

/-- The first item with a key. -/
def find (k : κ) (l : List α) : Option α := l.find? (fun a => decide (key a = k))

/-- Change the items with a key where they stand. -/
def change (k : κ) (f : α → α) (l : List α) : List α :=
  l.map (fun a => if key a = k then f a else a)

variable {key} {k k' : κ} {f : α → α} {l : List α} {a : α}

theorem find_eq_some (h : find key k l = some a) : a ∈ l ∧ key a = k := by
  unfold find at h
  exact ⟨List.mem_of_find?_eq_some h, by simpa using List.find?_some h⟩

/-- Where the keys are all different, an item is found by its own. -/
theorem find_of_mem (hl : (l.map key).Nodup) (ha : a ∈ l) : find key (key a) l = some a := by
  induction l with
  | nil => exact absurd ha List.not_mem_nil
  | cons b l ih =>
    rw [List.map_cons, List.nodup_cons] at hl
    unfold find
    obtain rfl | ha := List.mem_cons.mp ha
    · rw [List.find?_cons_of_pos (by simp)]
    · have hne : key b ≠ key a := fun hk => hl.1 (hk ▸ List.mem_map_of_mem ha)
      rw [List.find?_cons_of_neg (by simpa using hne)]
      exact ih hl.2 ha

theorem find_append (k : κ) (l l' : List α) :
    find key k (l ++ l') = (find key k l).or (find key k l') := List.find?_append

/-- What a change does not touch is not changed. -/
theorem map_change {g : α → β} (hf : ∀ a, g (f a) = g a) (k : κ) (l : List α) :
    (change key k f l).map g = l.map g := by
  unfold change
  rw [List.map_map]
  refine List.map_congr_left (fun a _ => ?_)
  show g (if key a = k then f a else a) = g a
  split_ifs
  · exact hf a
  · rfl

theorem change_of_not_mem (hk : k ∉ l.map key) : change key k f l = l := by
  unfold change
  refine (List.map_congr_left (fun a ha => if_neg (fun hak : key a = k => hk ?_))).trans
    (List.map_id l)
  exact hak ▸ List.mem_map_of_mem ha

theorem change_cons_self (ha : key a ∉ l.map key) :
    change key (key a) f (a :: l) = f a :: l := by
  have htail : change key (key a) f l = l := change_of_not_mem ha
  unfold change at htail ⊢
  rw [List.map_cons, if_pos rfl, htail]

theorem change_cons_of_ne (hne : key a ≠ k) :
    change key k f (a :: l) = a :: change key k f l := by
  unfold change
  rw [List.map_cons, if_neg hne]

/-- A change keeps the keys, and is found under its key. -/
theorem find_change (hf : ∀ a, key (f a) = key a) (k k' : κ) (l : List α) :
    find key k' (change key k f l) = if k' = k then (find key k l).map f else find key k' l := by
  induction l with
  | nil => simp [find, change]
  | cons a l ih =>
    unfold find change at ih ⊢
    rw [List.map_cons]
    by_cases hak : key a = k
    · rw [if_pos hak]
      by_cases hk' : k' = k
      · rw [if_pos hk', List.find?_cons_of_pos (by simp [hf, hak, hk']),
          List.find?_cons_of_pos (by simp [hak])]
        rfl
      · have hne : ¬ key a = k' := fun h => hk' (h.symm.trans hak)
        rw [if_neg hk', List.find?_cons_of_neg (by simpa [hf] using hne),
          List.find?_cons_of_neg (by simpa using hne), ih, if_neg hk']
    · rw [if_neg hak]
      by_cases hak' : key a = k'
      · have hne : k' ≠ k := fun h => hak (hak'.trans h)
        rw [if_neg hne, List.find?_cons_of_pos (by simpa using hak'),
          List.find?_cons_of_pos (by simpa using hak')]
      · rw [List.find?_cons_of_neg (by simpa using hak'),
          List.find?_cons_of_neg (by simpa using hak), List.find?_cons_of_neg (by simpa using hak'),
          ih]

/-- **How a change moves a count**: the item stops being counted as what it was,
and is counted as what it has become. -/
theorem countP_change (hl : (l.map key).Nodup) (ha : a ∈ l) (p : α → Bool) :
    (change key (key a) f l).countP p + (if p a then 1 else 0)
      = l.countP p + (if p (f a) then 1 else 0) := by
  induction l with
  | nil => exact absurd ha List.not_mem_nil
  | cons b l ih =>
    rw [List.map_cons, List.nodup_cons] at hl
    by_cases hba : b = a
    · subst hba
      rw [change_cons_self hl.1, List.countP_cons, List.countP_cons]
      omega
    · have hal : a ∈ l := (List.mem_cons.mp ha).resolve_left (fun h => hba h.symm)
      have hne : key b ≠ key a := fun hk => hl.1 (hk ▸ List.mem_map_of_mem hal)
      rw [change_cons_of_ne hne, List.countP_cons, List.countP_cons]
      have := ih hl.2 hal
      omega

end KeyedList
