import Mathlib

/-!
# Ordered sets with visitors

What a program may rely on of a package of ordered in-memory trees is that a tree is a
set ordered by the comparison it was built with: an insertion replaces the item that
ties with the new one, a deletion removes the item that ties with its argument, and a
range query hands the items from a pivot on, in order, to a visitor that may stop it.
`OrderedTree` is what such a package offers, and `LawfulOrderedTree` are these laws;
the shape of the tree, and so its degree, is not observable.

The comparison is an arbitrary Boolean function. The laws suppose that it is
read off a linear order by a *rank* – `less a b` says `rank a < rank b` – so
that a comparison with ties is covered: two items tie when they have the same
rank.

`BTree`, the increasing list of the items, is one such package.
-/

namespace OrderedTree

/-- Hand items to a visitor in order, for as long as it asks for more. -/
def walk {α σ : Type} (visit : σ → α → σ × Bool) : List α → σ → σ
  | [], s => s
  | x :: l, s => if (visit s x).2 then walk visit l (visit s x).1 else (visit s x).1

end OrderedTree

/-- **A package of ordered trees**, with a tree for each type of items. The comparison
that a tree was built with is handed to each of its operations. -/
class OrderedTree (T : Type → Type) where
  /-- The empty tree of a degree. -/
  new {α : Type} : ℤ → T α
  /-- The items, as a full ascent visits them. -/
  items {α : Type} : T α → List α
  /-- `ReplaceOrInsert(item)`. -/
  replaceOrInsert {α : Type} : (α → α → Bool) → T α → α → T α
  /-- `Delete(item)`. -/
  delete {α : Type} : (α → α → Bool) → T α → α → T α
  /-- `AscendGreaterOrEqual(pivot, visit)`. -/
  ascendGreaterOrEqual {α σ : Type} :
    (α → α → Bool) → T α → α → (σ → α → σ × Bool) → σ → σ
  /-- `DescendLessOrEqual(pivot, visit)`. -/
  descendLessOrEqual {α σ : Type} :
    (α → α → Bool) → T α → α → (σ → α → σ × Bool) → σ → σ

namespace OrderedTree

/-- The items are in strictly increasing order of rank. -/
def Sorted {T : Type → Type} [OrderedTree T] {α L : Type} [LinearOrder L] (rank : α → L)
    (t : T α) : Prop :=
  (items t).Pairwise (fun a b => rank a < rank b)

end OrderedTree

open OrderedTree in
/-- **The laws of an ordered set.** -/
class LawfulOrderedTree (T : Type → Type) [OrderedTree T] : Prop where
  /-- A new tree has no items. -/
  items_new {α : Type} (degree : ℤ) : items (new degree : T α) = []
  /-- An insertion keeps the order. -/
  sorted_replaceOrInsert {α L : Type} [LinearOrder L] {less : α → α → Bool} {rank : α → L}
    (hless : ∀ a b, less a b = true ↔ rank a < rank b) {t : T α} (ht : Sorted rank t) (x : α) :
    Sorted rank (replaceOrInsert less t x)
  /-- After an insertion the tree holds the new item and what does not tie with it. -/
  mem_replaceOrInsert {α L : Type} [LinearOrder L] {less : α → α → Bool} {rank : α → L}
    (hless : ∀ a b, less a b = true ↔ rank a < rank b) {t : T α} (ht : Sorted rank t) {x y : α} :
    y ∈ items (replaceOrInsert less t x) ↔ y = x ∨ y ∈ items t ∧ rank y ≠ rank x
  /-- A deletion keeps the order. -/
  sorted_delete {α L : Type} [LinearOrder L] {less : α → α → Bool} {rank : α → L}
    (hless : ∀ a b, less a b = true ↔ rank a < rank b) {t : T α} (ht : Sorted rank t) (x : α) :
    Sorted rank (delete less t x)
  /-- After a deletion the tree holds what does not tie with the item deleted. -/
  mem_delete {α L : Type} [LinearOrder L] {less : α → α → Bool} {rank : α → L}
    (hless : ∀ a b, less a b = true ↔ rank a < rank b) {t : T α} (ht : Sorted rank t) {x y : α} :
    y ∈ items (delete less t x) ↔ y ∈ items t ∧ rank y ≠ rank x
  /-- An ascent starts at the first item that is not below the pivot. -/
  ascendGreaterOrEqual_eq {α σ L : Type} [LinearOrder L] {less : α → α → Bool} {rank : α → L}
    (hless : ∀ a b, less a b = true ↔ rank a < rank b) {t : T α} (ht : Sorted rank t) (pivot : α)
    (visit : σ → α → σ × Bool) (s : σ) :
    ascendGreaterOrEqual less t pivot visit s
      = walk visit ((items t).dropWhile (fun x => less x pivot)) s
  /-- A descent starts at the last item that is not above the pivot. -/
  descendLessOrEqual_eq {α σ L : Type} [LinearOrder L] {less : α → α → Bool} {rank : α → L}
    (hless : ∀ a b, less a b = true ↔ rank a < rank b) {t : T α} (ht : Sorted rank t) (pivot : α)
    (visit : σ → α → σ × Bool) (s : σ) :
    descendLessOrEqual less t pivot visit s
      = walk visit ((items t).reverse.dropWhile (fun x => less pivot x)) s

/-! ## The increasing list -/

/-- A B-tree: its degree and its items, in increasing order. -/
structure BTree (α : Type) where
  /-- The minimum degree the tree was built with. -/
  degree : ℤ
  /-- The items, in increasing order. -/
  items : List α
  deriving DecidableEq

namespace BTree

variable {α L : Type}

/-- Insertion in a sorted list; an item that ties is replaced. -/
def insertItem (less : α → α → Bool) (x : α) : List α → List α
  | [] => [x]
  | y :: l =>
    if less x y then x :: y :: l
    else if less y x then y :: insertItem less x l
    else x :: l

/-- Deletion from a sorted list of the item that ties. -/
def deleteItem (less : α → α → Bool) (x : α) : List α → List α
  | [] => []
  | y :: l =>
    if less x y then y :: l
    else if less y x then y :: deleteItem less x l
    else l

instance : OrderedTree BTree where
  new degree := ⟨degree, []⟩
  items := items
  replaceOrInsert less t x := { t with items := insertItem less x t.items }
  delete less t x := { t with items := deleteItem less x t.items }
  ascendGreaterOrEqual less t pivot visit s :=
    OrderedTree.walk visit (t.items.dropWhile (fun x => less x pivot)) s
  descendLessOrEqual less t pivot visit s :=
    OrderedTree.walk visit (t.items.reverse.dropWhile (fun x => less pivot x)) s

section Laws

variable [LinearOrder L] {less : α → α → Bool} {rank : α → L}

/-- After an insertion the tree holds the new item and what does not tie with
it. -/
theorem mem_insertItem (hless : ∀ a b, less a b = true ↔ rank a < rank b) {x y : α} :
    ∀ {l : List α}, l.Pairwise (fun a b => rank a < rank b) →
      (y ∈ insertItem less x l ↔ y = x ∨ y ∈ l ∧ rank y ≠ rank x)
  | [], _ => by simp [insertItem]
  | z :: l, hl => by
    obtain ⟨hz, hl⟩ := List.pairwise_cons.mp hl
    have ih := mem_insertItem hless (x := x) (y := y) hl
    unfold insertItem
    split_ifs with h₁ h₂
    · -- everything in the list is above the new item
      have hx := (hless x z).mp h₁
      have hne : ∀ w ∈ z :: l, rank w ≠ rank x := fun w hw => by
        rcases List.mem_cons.mp hw with rfl | hw
        · exact ne_of_gt hx
        · exact ne_of_gt (hx.trans (hz w hw))
      rw [List.mem_cons]
      exact or_congr_right ⟨fun h => ⟨h, hne y h⟩, fun h => h.1⟩
    · have hx := (hless z x).mp h₂
      rw [List.mem_cons, ih, List.mem_cons]
      constructor
      · rintro (rfl | rfl | h)
        · exact Or.inr ⟨Or.inl rfl, ne_of_lt hx⟩
        · exact Or.inl rfl
        · exact Or.inr ⟨Or.inr h.1, h.2⟩
      · rintro (rfl | ⟨rfl | h, hn⟩)
        · exact Or.inr (Or.inl rfl)
        · exact Or.inl rfl
        · exact Or.inr (Or.inr ⟨h, hn⟩)
    · -- the head ties with the new item, the others are above it
      have htie : rank z = rank x :=
        le_antisymm (not_lt.mp (mt (hless x z).mpr h₁)) (not_lt.mp (mt (hless z x).mpr h₂))
      have hne : ∀ w ∈ l, rank w ≠ rank x := fun w hw => by
        rw [← htie]
        exact ne_of_gt (hz w hw)
      rw [List.mem_cons, List.mem_cons]
      constructor
      · rintro (rfl | h)
        · exact Or.inl rfl
        · exact Or.inr ⟨Or.inr h, hne y h⟩
      · rintro (rfl | ⟨rfl | h, hn⟩)
        · exact Or.inl rfl
        · exact absurd htie hn
        · exact Or.inr h

/-- After a deletion the tree holds what does not tie with the item deleted. -/
theorem mem_deleteItem (hless : ∀ a b, less a b = true ↔ rank a < rank b) {x y : α} :
    ∀ {l : List α}, l.Pairwise (fun a b => rank a < rank b) →
      (y ∈ deleteItem less x l ↔ y ∈ l ∧ rank y ≠ rank x)
  | [], _ => by simp [deleteItem]
  | z :: l, hl => by
    obtain ⟨hz, hl⟩ := List.pairwise_cons.mp hl
    have ih := mem_deleteItem hless (x := x) (y := y) hl
    unfold deleteItem
    split_ifs with h₁ h₂
    · have hx := (hless x z).mp h₁
      refine ⟨fun h => ⟨h, ?_⟩, fun h => h.1⟩
      rcases List.mem_cons.mp h with rfl | hw
      · exact ne_of_gt hx
      · exact ne_of_gt (hx.trans (hz y hw))
    · have hx := (hless z x).mp h₂
      rw [List.mem_cons, ih, List.mem_cons]
      constructor
      · rintro (rfl | h)
        · exact ⟨Or.inl rfl, ne_of_lt hx⟩
        · exact ⟨Or.inr h.1, h.2⟩
      · rintro ⟨rfl | h, hn⟩
        · exact Or.inl rfl
        · exact Or.inr ⟨h, hn⟩
    · have htie : rank z = rank x :=
        le_antisymm (not_lt.mp (mt (hless x z).mpr h₁)) (not_lt.mp (mt (hless z x).mpr h₂))
      constructor
      · intro h
        refine ⟨List.mem_cons_of_mem z h, ?_⟩
        rw [← htie]
        exact ne_of_gt (hz y h)
      · rintro ⟨h, hn⟩
        rcases List.mem_cons.mp h with rfl | h
        · exact absurd htie hn
        · exact h

/-- An insertion keeps the order. -/
theorem pairwise_insertItem (hless : ∀ a b, less a b = true ↔ rank a < rank b) (x : α)
    {l : List α} (hl : l.Pairwise (fun a b => rank a < rank b)) :
    (insertItem less x l).Pairwise (fun a b => rank a < rank b) := by
  induction l with
  | nil => exact List.pairwise_singleton _ _
  | cons z l ih =>
    obtain ⟨hz, hl'⟩ := List.pairwise_cons.mp hl
    unfold insertItem
    split_ifs with h₁ h₂
    · refine List.pairwise_cons.mpr ⟨fun w hw => ?_, hl⟩
      rcases List.mem_cons.mp hw with rfl | hw
      · exact (hless x w).mp h₁
      · exact ((hless x z).mp h₁).trans (hz w hw)
    · refine List.pairwise_cons.mpr ⟨fun w hw => ?_, ih hl'⟩
      rcases (mem_insertItem hless hl').mp hw with rfl | hw
      · exact (hless z w).mp h₂
      · exact hz w hw.1
    · have htie : rank z = rank x :=
        le_antisymm (not_lt.mp (mt (hless x z).mpr h₁)) (not_lt.mp (mt (hless z x).mpr h₂))
      refine List.pairwise_cons.mpr ⟨fun w hw => ?_, hl'⟩
      rw [← htie]
      exact hz w hw

/-- A deletion keeps the order. -/
theorem pairwise_deleteItem (hless : ∀ a b, less a b = true ↔ rank a < rank b) (x : α)
    {l : List α} (hl : l.Pairwise (fun a b => rank a < rank b)) :
    (deleteItem less x l).Pairwise (fun a b => rank a < rank b) := by
  induction l with
  | nil => exact List.Pairwise.nil
  | cons z l ih =>
    obtain ⟨hz, hl'⟩ := List.pairwise_cons.mp hl
    unfold deleteItem
    split_ifs with h₁ h₂
    · exact hl
    · exact List.pairwise_cons.mpr
        ⟨fun w hw => hz w ((mem_deleteItem hless hl').mp hw).1, ih hl'⟩
    · exact hl'

end Laws

/-- **The increasing list is an ordered set.** -/
instance : LawfulOrderedTree BTree where
  items_new _ := rfl
  sorted_replaceOrInsert hless _ ht x := pairwise_insertItem hless x ht
  mem_replaceOrInsert hless _ ht := mem_insertItem hless ht
  sorted_delete hless _ ht x := pairwise_deleteItem hless x ht
  mem_delete hless _ ht := mem_deleteItem hless ht
  ascendGreaterOrEqual_eq _ _ _ _ _ _ := rfl
  descendLessOrEqual_eq _ _ _ _ _ _ := rfl

end BTree

namespace OrderedTree

variable {α σ L : Type}

/-! ## Visitors that collect -/

/-- **A visitor that collects until a border** collects the items before it. -/
theorem walk_collect {β : Type} (stop : α → Bool) (f : α → List β)
    {visit : List β → α → List β × Bool}
    (hvisit : ∀ s x, visit s x = if stop x then (s, false) else (s ++ f x, true))
    (l : List α) (s : List β) :
    walk visit l s = s ++ (l.takeWhile (fun x => !stop x)).flatMap f := by
  induction l generalizing s with
  | nil => simp [walk]
  | cons x l ih =>
    rw [walk, hvisit]
    cases hx : stop x with
    | true => simp [hx]
    | false =>
      simp only [Bool.false_eq_true, if_false, if_true]
      rw [ih, List.takeWhile_cons_of_pos (by simp [hx]), List.flatMap_cons, List.append_assoc]

/-- Where a predicate only ever turns from true to false along a list, its
initial run is all it selects. -/
theorem takeWhile_eq_filter {R : α → α → Prop} {p : α → Bool} {l : List α}
    (hl : l.Pairwise R) (hp : ∀ a b, R a b → p b = true → p a = true) :
    l.takeWhile p = l.filter p := by
  induction l with
  | nil => rfl
  | cons x l ih =>
    obtain ⟨hx, hl⟩ := List.pairwise_cons.mp hl
    cases hpx : p x with
    | true =>
      rw [List.takeWhile_cons_of_pos hpx, List.filter_cons_of_pos hpx, ih hl]
    | false =>
      have hnone : l.filter p = [] := List.filter_eq_nil_iff.mpr (fun y hy hpy => by
        rw [hp x y (hx y hy) hpy] at hpx
        exact Bool.noConfusion hpx)
      rw [List.takeWhile_cons_of_neg (by simp [hpx]), List.filter_cons_of_neg (by simp [hpx]),
        hnone]

/-- The same for the run that a border stops, in a selection. -/
theorem takeWhile_not_filter {R : α → α → Prop} {p stop : α → Bool} {l : List α}
    (hl : (l.filter p).Pairwise R) (hstop : ∀ a b, R a b → stop a = true → stop b = true) :
    (l.filter p).takeWhile (fun x => !stop x) = l.filter (fun x => p x && !stop x) := by
  rw [takeWhile_eq_filter hl (fun a b hab hb => ?_), List.filter_filter]
  · exact List.filter_congr (fun x _ => Bool.and_comm _ _)
  · rw [Bool.not_eq_true'] at hb ⊢
    by_contra hne
    rw [Bool.not_eq_false] at hne
    rw [hstop a b hab hne] at hb
    exact Bool.noConfusion hb

/-- And what remains after that run is all it rejects. -/
theorem dropWhile_eq_filter_not {R : α → α → Prop} {p : α → Bool} {l : List α}
    (hl : l.Pairwise R) (hp : ∀ a b, R a b → p b = true → p a = true) :
    l.dropWhile p = l.filter (fun x => !p x) := by
  induction l with
  | nil => rfl
  | cons x l ih =>
    obtain ⟨hx, hl⟩ := List.pairwise_cons.mp hl
    cases hpx : p x with
    | true => rw [List.dropWhile_cons_of_pos hpx, List.filter_cons_of_neg (by simp [hpx]), ih hl]
    | false =>
      have hall : ∀ y ∈ x :: l, (!p y) = true := fun y hy => by
        rcases List.mem_cons.mp hy with rfl | hy
        · simp [hpx]
        · cases hpy : p y with
          | false => rfl
          | true => rw [hp x y (hx y hy) hpy] at hpx; exact Bool.noConfusion hpx
      rw [List.dropWhile_cons_of_neg (by simp [hpx]), List.filter_eq_self.mpr hall]

/-! ## What the ranges of a lawful tree visit -/

section Laws

variable {T : Type → Type} [OrderedTree T] [LawfulOrderedTree T] [LinearOrder L]
  {less : α → α → Bool} {rank : α → L}

open LawfulOrderedTree

theorem sorted_new (rank : α → L) (degree : ℤ) : Sorted rank (new degree : T α) := by
  unfold Sorted
  rw [items_new]
  exact List.Pairwise.nil

/-- **What an ascending range visits**: the items of rank at least the
pivot's, in order, up to the visitor's border. -/
theorem ascendGreaterOrEqual_collect {β : Type}
    (hless : ∀ a b, less a b = true ↔ rank a < rank b) {t : T α} (ht : Sorted rank t)
    (pivot : α) (stop : α → Bool) (f : α → List β) {visit : List β → α → List β × Bool}
    (hvisit : ∀ s x, visit s x = if stop x then (s, false) else (s ++ f x, true)) :
    ascendGreaterOrEqual less t pivot visit []
      = (((items t).filter (fun x => decide (rank pivot ≤ rank x))).takeWhile
          (fun x => !stop x)).flatMap f := by
  have hdrop : (items t).dropWhile (fun x => less x pivot)
      = (items t).filter (fun x => decide (rank pivot ≤ rank x)) := by
    rw [dropWhile_eq_filter_not ht (fun a b hab hb =>
      (hless a pivot).mpr (hab.trans ((hless b pivot).mp hb)))]
    refine List.filter_congr (fun x _ => ?_)
    rw [Bool.eq_iff_iff, Bool.not_eq_true', ← Bool.not_eq_true, hless, not_lt, decide_eq_true_iff]
  rw [ascendGreaterOrEqual_eq hless ht, hdrop, walk_collect stop f hvisit, List.nil_append]

/-- **What a descending range visits**: the items of rank at most the
pivot's, from the greatest down, up to the visitor's border. -/
theorem descendLessOrEqual_collect {β : Type}
    (hless : ∀ a b, less a b = true ↔ rank a < rank b) {t : T α} (ht : Sorted rank t)
    (pivot : α) (stop : α → Bool) (f : α → List β) {visit : List β → α → List β × Bool}
    (hvisit : ∀ s x, visit s x = if stop x then (s, false) else (s ++ f x, true)) :
    descendLessOrEqual less t pivot visit []
      = (((items t).reverse.filter (fun x => decide (rank x ≤ rank pivot))).takeWhile
          (fun x => !stop x)).flatMap f := by
  have hdrop : (items t).reverse.dropWhile (fun x => less pivot x)
      = (items t).reverse.filter (fun x => decide (rank x ≤ rank pivot)) := by
    rw [dropWhile_eq_filter_not (List.pairwise_reverse.mpr ht) (fun a b hab hb =>
      (hless pivot a).mpr (((hless pivot b).mp hb).trans hab))]
    refine List.filter_congr (fun x _ => ?_)
    rw [Bool.eq_iff_iff, Bool.not_eq_true', ← Bool.not_eq_true, hless, not_lt, decide_eq_true_iff]
  rw [descendLessOrEqual_eq hless ht, hdrop, walk_collect stop f hvisit, List.nil_append]

/-- **An ascending collection as a selection**, for a border that no item past
it crosses back. -/
theorem ascendGreaterOrEqual_filter {β : Type}
    (hless : ∀ a b, less a b = true ↔ rank a < rank b) {t : T α} (ht : Sorted rank t)
    (pivot : α) (stop : α → Bool) (f : α → List β) {visit : List β → α → List β × Bool}
    (hvisit : ∀ s x, visit s x = if stop x then (s, false) else (s ++ f x, true))
    (hstop : ∀ a b, rank pivot ≤ rank a → rank a < rank b → stop a = true → stop b = true) :
    ascendGreaterOrEqual less t pivot visit []
      = ((items t).filter (fun x => decide (rank pivot ≤ rank x) && !stop x)).flatMap f := by
  have hsort : ((items t).filter (fun x => decide (rank pivot ≤ rank x))).Pairwise
      (fun a b => rank pivot ≤ rank a ∧ rank a < rank b) :=
    (List.Pairwise.filter _ ht).imp_of_mem (fun ha _ hab =>
      ⟨of_decide_eq_true (List.mem_filter.mp ha).2, hab⟩)
  rw [ascendGreaterOrEqual_collect hless ht pivot stop f hvisit,
    takeWhile_not_filter hsort (fun a b hab => hstop a b hab.1 hab.2)]

/-- **A descending collection as a selection**, for a border that no item past
it crosses back. -/
theorem descendLessOrEqual_filter {β : Type}
    (hless : ∀ a b, less a b = true ↔ rank a < rank b) {t : T α} (ht : Sorted rank t)
    (pivot : α) (stop : α → Bool) (f : α → List β) {visit : List β → α → List β × Bool}
    (hvisit : ∀ s x, visit s x = if stop x then (s, false) else (s ++ f x, true))
    (hstop : ∀ a b, rank a ≤ rank pivot → rank b < rank a → stop a = true → stop b = true) :
    descendLessOrEqual less t pivot visit []
      = ((items t).reverse.filter
          (fun x => decide (rank x ≤ rank pivot) && !stop x)).flatMap f := by
  have hsort : ((items t).reverse.filter (fun x => decide (rank x ≤ rank pivot))).Pairwise
      (fun a b => rank a ≤ rank pivot ∧ rank b < rank a) :=
    (List.Pairwise.filter _ (List.pairwise_reverse.mpr ht)).imp_of_mem (fun ha _ hab =>
      ⟨of_decide_eq_true (List.mem_filter.mp ha).2, hab⟩)
  rw [descendLessOrEqual_collect hless ht pivot stop f hvisit,
    takeWhile_not_filter hsort (fun a b hab => hstop a b hab.1 hab.2)]

omit [LinearOrder L] in
/-- A collection from different items repeats nothing. -/
theorem nodup_flatMap_filter {β : Type} {l : List α} {p : α → Bool} {f : α → List β}
    (hl : l.Nodup) (hf : ∀ x, (f x).Nodup) (hdisj : ∀ x y, x ≠ y → List.Disjoint (f x) (f y)) :
    ((l.filter p).flatMap f).Nodup := by
  rw [List.nodup_flatMap]
  exact ⟨fun x _ => hf x, (hl.filter p).imp (fun {a b} hab => hdisj a b hab)⟩

omit [LawfulOrderedTree T] in
/-- The items of a sorted tree are different. -/
theorem Sorted.nodup {t : T α} (ht : Sorted rank t) : (items t).Nodup :=
  List.Pairwise.imp (fun {a b} hab => fun h => absurd hab (by rw [h]; exact lt_irrefl _)) ht

omit [LawfulOrderedTree T] in
/-- **A sorted tree is determined by its items**: no two trees, of one package or of two,
hold the same set in different orders. -/
theorem Sorted.items_eq {T' : Type → Type} [OrderedTree T'] {t : T α} {t' : T' α}
    (ht : Sorted rank t) (ht' : Sorted rank t') (h : ∀ x, x ∈ items t ↔ x ∈ items t') :
    items t = items t' := by
  have hperm : (items t).Perm (items t') := (List.perm_ext_iff_of_nodup ht.nodup ht'.nodup).mpr h
  exact hperm.eq_of_pairwise (fun a b _ _ hab hba => absurd hab hba.not_gt) ht ht'

end Laws

end OrderedTree
