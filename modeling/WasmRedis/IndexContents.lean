import WasmRedis.Index

/-!
# What the index holds

The four structures of an index repeat one another: the key tree, the value
tree and the inverted map are all determined by the map from keys to values.
`Index.Holds` says so, and `Set` and `Delete` keep it, whatever they are called
with. What `Find` returns is then read off that one map.

The value tree orders its items by `rank`, in which texts come before numbers.
Two values that tie there are the same value only because every value in an
index is `Normal` – a number carries the text its float is formatted to.
-/

namespace WasmRedis

open GoString

variable {R : Type} [LinearOrder R] [Zero R] [Strconv R]

/-! ## Values -/

namespace Value

/-- The place of a value in the order of the value tree: the texts come first,
byte by byte, and then the numbers. -/
def rank (v : Value R) : GoString ⊕ₗ R :=
  if v.number then toLex (.inr v.numeric) else toLex (.inl v.text)

/-- The values an index holds: the text of a number is its format, and a text
has no number. -/
def Normal (v : Value R) : Prop :=
  if v.number then v.text = Strconv.formatFloat (.finite v.numeric) else v.numeric = 0

omit [Zero R] [Strconv R] in
theorem less_iff_rank (a b : Value R) : less a b = true ↔ a.rank < b.rank := by
  unfold less rank
  cases a.number <;> cases b.number
  · simp
  · simp
  · simp
  · simp

omit [LinearOrder R] in
/-- Normal values that tie are equal. -/
theorem Normal.eq_of_rank {a b : Value R} (ha : a.Normal) (hb : b.Normal)
    (h : a.rank = b.rank) : a = b := by
  obtain ⟨ta, na, xa⟩ := a
  obtain ⟨tb, nb, xb⟩ := b
  unfold Normal at ha hb
  unfold rank at h
  cases na <;> cases nb
  · have htext : ta = tb := Sum.inl.inj (toLex.injective h)
    have hnum : xa = xb := by
      rw [show xa = 0 from ha, show xb = 0 from hb]
    rw [htext, hnum]
  · exact absurd (toLex.injective h) (by simp)
  · exact absurd (toLex.injective h) (by simp)
  · have hnum : xa = xb := Sum.inr.inj (toLex.injective h)
    have htext : ta = tb := by
      rw [show ta = _ from ha, show tb = _ from hb, hnum]
    rw [htext, hnum]

end Value

/-- The number a text reads as; of use only where the text is a finite number. -/
def numberOf (R : Type) [Zero R] [Strconv R] (text : GoString) : R :=
  match (Strconv.parseFloat text : Option (GoFloat R)) with
  | none => 0
  | some n => n.toNumber

/-- The value `scalar` gives. -/
def normalised (R : Type) [Zero R] [Strconv R] (text : GoString) (number : Bool) : Value R :=
  if number then
    { text := Strconv.formatFloat (.finite (numberOf R text)), number := true,
      numeric := numberOf R text }
  else { text := text, number := false, numeric := 0 }

omit [LinearOrder R] in
theorem normalised_normal (text : GoString) (number : Bool) :
    (normalised R text number).Normal := by
  cases number with
  | false => rfl
  | true => rfl

/-- **The test of `scalar` is the test of `set`, of `applyOp` and of the
parser**: it accepts what is not flagged a number or is a finite one. -/
theorem scalar_eq (text : GoString) (number : Bool) :
    scalar (R := R) text number
      = if number && !Strconv.isFiniteNumber R text then
          .error (.new (str "nombre fini requis"))
        else .ok (normalised R text number) := by
  cases number with
  | false => rfl
  | true =>
    unfold scalar normalised Strconv.isFiniteNumber numberOf
    cases (Strconv.parseFloat text : Option (GoFloat R)) with
    | none => rfl
    | some n =>
      cases n with
      | nan => rfl
      | inf sign => rfl
      | negZero => rfl
      | finite x =>
        -- a finite zero is replaced by itself
        by_cases hx : x = 0
        · subst hx
          simp [GoFloat.isNaN, GoFloat.isInf, GoFloat.isZero, GoFloat.toNumber]
        · simp [GoFloat.isNaN, GoFloat.isInf, GoFloat.isZero, GoFloat.toNumber, hx]

theorem scalar_ok {text : GoString} {number : Bool}
    (h : number = true → Strconv.isFiniteNumber R text = true) :
    scalar (R := R) text number = .ok (normalised R text number) := by
  rw [scalar_eq]
  cases number with
  | false => rfl
  | true =>
    rw [h rfl]
    rfl

/-! ## The invariant -/

namespace Index

variable {T : Type → Type} [OrderedTree T]

/-- **The four structures agree**: the trees hold, in order, the keys and the
values of the map, and the inverted map holds the keys of each value. -/
structure Holds (idx : Index R T) : Prop where
  /-- The key tree is in order. -/
  keys_sorted : OrderedTree.Sorted id idx.keys
  /-- The key tree holds the keys. -/
  mem_keys : ∀ k, k ∈ OrderedTree.items idx.keys ↔ ∃ v, idx.entries.lookup k = some v
  /-- The value tree is in order. -/
  values_sorted : OrderedTree.Sorted Value.rank idx.values
  /-- The value tree holds the values. -/
  mem_values : ∀ v, v ∈ OrderedTree.items idx.values ↔ ∃ k, idx.entries.lookup k = some v
  /-- The inverted map holds the keys of each value. -/
  mem_inverted : ∀ v k, k ∈ (idx.inverted.lookup v).getD ∅ ↔ idx.entries.lookup k = some v
  /-- And no value without keys. -/
  inverted_ne : ∀ v, idx.inverted.lookup v ≠ some ∅
  /-- The values are normal. -/
  normal : ∀ k v, idx.entries.lookup k = some v → v.Normal

omit [LinearOrder R] [Zero R] [Strconv R] in
@[simp] theorem new_entries (degree : ℤ) : (new degree : Index R T).entries = ∅ := rfl

theorem new_holds [LawfulOrderedTree T] (degree : ℤ) : (new degree : Index R T).Holds where
  keys_sorted := OrderedTree.sorted_new _ _
  mem_keys k := by
    show k ∈ OrderedTree.items (OrderedTree.new _ : T GoString)
      ↔ ∃ v, (∅ : GoMap GoString (Value R)).lookup k = some v
    simp [LawfulOrderedTree.items_new]
  values_sorted := OrderedTree.sorted_new _ _
  mem_values v := by
    show v ∈ OrderedTree.items (OrderedTree.new _ : T (Value R))
      ↔ ∃ k, (∅ : GoMap GoString (Value R)).lookup k = some v
    simp [LawfulOrderedTree.items_new]
  mem_inverted v k := by
    show k ∈ ((∅ : GoMap (Value R) (Finset GoString)).lookup v).getD ∅
      ↔ (∅ : GoMap GoString (Value R)).lookup k = some v
    simp
  inverted_ne v := by
    show (∅ : GoMap (Value R) (Finset GoString)).lookup v ≠ some ∅
    simp
  normal k v h := by
    rw [new_entries, Finmap.lookup_empty] at h
    cases h

variable {idx : Index R T}

omit [Zero R] [Strconv R] in
theorem lessKey_iff (a b : GoString) : lessKey a b = true ↔ id a < id b := decide_eq_true_iff

/-- A value nobody holds is not in the inverted map. -/
theorem Holds.inverted_none (h : idx.Holds) {v : Value R} :
    idx.inverted.lookup v = none ↔ ∀ k, idx.entries.lookup k ≠ some v := by
  constructor
  · intro hnone k hk
    have hmem := (h.mem_inverted v k).mpr hk
    rw [hnone] at hmem
    exact absurd hmem (Finset.notMem_empty k)
  · intro hall
    cases hv : idx.inverted.lookup v with
    | none => rfl
    | some held =>
      have hne : held.Nonempty := Finset.nonempty_iff_ne_empty.mpr (fun h0 =>
        h.inverted_ne v (by rw [hv, h0]))
      obtain ⟨k, hk⟩ := hne
      exact absurd ((h.mem_inverted v k).mp (by rw [hv]; exact hk)) (hall k)

/-! ## Deletion -/

omit [Zero R] [Strconv R] in
/-- The map loses the key. -/
theorem delete_entries (idx : Index R T) (key : GoString) :
    (idx.delete key).entries = idx.entries.erase key := by
  unfold delete
  cases hk : idx.entries.lookup key with
  | none =>
    refine Finmap.ext_lookup (fun k => ?_)
    by_cases hkk : k = key
    · rw [hkk, hk, Finmap.lookup_erase]
    · rw [Finmap.lookup_erase_ne hkk]
  | some item =>
    dsimp only
    split_ifs <;> rfl

omit [Zero R] [Strconv R] in
/-- Deleting a key the index has. -/
theorem delete_of_some {key : GoString} {item : Value R}
    (hk : idx.entries.lookup key = some item) :
    idx.delete key
      = if ((idx.inverted.lookup item).getD ∅).erase key = ∅ then
          { keys := OrderedTree.delete lessKey idx.keys key,
            values := OrderedTree.delete less idx.values item,
            entries := idx.entries.erase key, inverted := idx.inverted.erase item }
        else
          { keys := OrderedTree.delete lessKey idx.keys key, values := idx.values,
            entries := idx.entries.erase key,
            inverted := idx.inverted.insert item
              (((idx.inverted.lookup item).getD ∅).erase key) } := by
  unfold delete
  rw [hk]

/-- The inverted map after a deletion: the key is removed from the keys of its
value, and from nowhere else. -/
theorem Holds.delete_inverted (h : idx.Holds) {key : GoString} {item : Value R}
    (hk : idx.entries.lookup key = some item) (v : Value R) :
    ((idx.delete key).inverted.lookup v).getD ∅ = ((idx.inverted.lookup v).getD ∅).erase key
      ∧ (idx.delete key).inverted.lookup v ≠ some ∅ := by
  rw [delete_of_some hk]
  by_cases hv : v = item
  · subst hv
    split_ifs with hempty
    · rw [hempty]
      show ((idx.inverted.erase v).lookup v).getD ∅ = ∅ ∧ (idx.inverted.erase v).lookup v ≠ _
      rw [Finmap.lookup_erase]
      exact ⟨rfl, nofun⟩
    · show ((idx.inverted.insert v _).lookup v).getD ∅ = _ ∧ (idx.inverted.insert v _).lookup v ≠ _
      rw [Finmap.lookup_insert]
      exact ⟨rfl, fun h0 => hempty (Option.some.inj h0)⟩
  · have hout : key ∉ (idx.inverted.lookup v).getD ∅ := fun hmem => by
      rw [h.mem_inverted, hk] at hmem
      exact hv (Option.some.inj hmem).symm
    rw [Finset.erase_eq_of_notMem hout]
    split_ifs with hempty
    · show ((idx.inverted.erase item).lookup v).getD ∅ = _ ∧ (idx.inverted.erase item).lookup v ≠ _
      rw [Finmap.lookup_erase_ne hv]
      exact ⟨rfl, h.inverted_ne v⟩
    · show ((idx.inverted.insert item _).lookup v).getD ∅ = _
        ∧ (idx.inverted.insert item _).lookup v ≠ _
      rw [Finmap.lookup_insert_of_ne _ hv]
      exact ⟨rfl, h.inverted_ne v⟩

/-- **`Delete` keeps the invariant.** -/
theorem Holds.delete [LawfulOrderedTree T] (h : idx.Holds) (key : GoString) :
    (idx.delete key).Holds := by
  cases hk : idx.entries.lookup key with
  | none =>
    have hsame : idx.delete key = idx := by
      unfold Index.delete
      rw [hk]
    rwa [hsame]
  | some item =>
    have hent := delete_entries idx key
    have hinv := h.delete_inverted hk
    have hkeys : (idx.delete key).keys = OrderedTree.delete lessKey idx.keys key := by
      rw [delete_of_some hk]
      split_ifs <;> rfl
    refine ⟨?_, fun k => ?_, ?_, fun v => ?_, fun v k => ?_, fun v => (hinv v).2,
      fun k v hkv => ?_⟩
    · rw [hkeys]
      exact LawfulOrderedTree.sorted_delete lessKey_iff h.keys_sorted key
    · rw [hkeys, LawfulOrderedTree.mem_delete lessKey_iff h.keys_sorted, h.mem_keys, hent]
      simp only [GoMap.lookup_erase_eq_some, id]
      exact ⟨fun ⟨⟨v, hv⟩, hne⟩ => ⟨v, hne, hv⟩, fun ⟨v, hne, hv⟩ => ⟨⟨v, hv⟩, hne⟩⟩
    · rw [delete_of_some hk]
      split_ifs
      · exact LawfulOrderedTree.sorted_delete Value.less_iff_rank h.values_sorted item
      · exact h.values_sorted
    · -- a value stays in the tree exactly if the inverted map still has a key for it
      have hiff : (∃ k, (idx.delete key).entries.lookup k = some v)
          ↔ ((((idx.inverted.lookup v).getD ∅).erase key)).Nonempty := by
        rw [hent]
        simp only [GoMap.lookup_erase_eq_some, Finset.Nonempty, Finset.mem_erase, h.mem_inverted]
      rw [hiff, delete_of_some hk]
      split_ifs with hempty
      · show v ∈ OrderedTree.items (OrderedTree.delete less idx.values item) ↔ _
        rw [LawfulOrderedTree.mem_delete Value.less_iff_rank h.values_sorted, h.mem_values]
        by_cases hv : v = item
        · subst hv
          rw [hempty]
          exact ⟨fun hr => absurd rfl hr.2, fun hr => absurd hr Finset.not_nonempty_empty⟩
        · have hout : key ∉ (idx.inverted.lookup v).getD ∅ := fun hmem => by
            rw [h.mem_inverted, hk] at hmem
            exact hv (Option.some.inj hmem).symm
          rw [Finset.erase_eq_of_notMem hout]
          simp only [Finset.Nonempty, h.mem_inverted]
          exact ⟨fun hr => hr.1, fun ⟨k, hr⟩ => ⟨⟨k, hr⟩, fun hrank =>
            hv ((h.normal k v hr).eq_of_rank (h.normal key item hk) hrank)⟩⟩
      · show v ∈ OrderedTree.items idx.values ↔ _
        rw [h.mem_values]
        by_cases hv : v = item
        · subst hv
          exact ⟨fun _ => Finset.nonempty_iff_ne_empty.mpr hempty, fun _ => ⟨key, hk⟩⟩
        · have hout : key ∉ (idx.inverted.lookup v).getD ∅ := fun hmem => by
            rw [h.mem_inverted, hk] at hmem
            exact hv (Option.some.inj hmem).symm
          rw [Finset.erase_eq_of_notMem hout]
          simp only [Finset.Nonempty, h.mem_inverted]
    · rw [(hinv v).1, hent, Finset.mem_erase, h.mem_inverted, GoMap.lookup_erase_eq_some]
    · rw [hent, GoMap.lookup_erase_eq_some] at hkv
      exact h.normal k v hkv.2

/-! ## Insertion -/

/-- Setting a key: what `Set` does once the value is normalised. -/
theorem set_of_scalar {key text : GoString} {number : Bool} {item : Value R}
    (hs : scalar text number = .ok item) :
    idx.set key text number
      = .ok { keys := OrderedTree.replaceOrInsert lessKey (idx.delete key).keys key,
              values := match (idx.delete key).inverted.lookup item with
                | none => OrderedTree.replaceOrInsert less (idx.delete key).values item
                | some _ => (idx.delete key).values,
              entries := (idx.delete key).entries.insert key item,
              inverted := (idx.delete key).inverted.insert item
                (insert key (((idx.delete key).inverted.lookup item).getD ∅)) } := by
  unfold set
  rw [hs]
  dsimp only
  cases (idx.delete key).inverted.lookup item with
  | none => rfl
  | some held => rfl

/-- `Set` fails exactly where `scalar` does. -/
theorem set_of_scalar_error {key text : GoString} {number : Bool} {err : Err}
    (hs : scalar (R := R) text number = .error err) : idx.set key text number = .error err := by
  unfold set
  rw [hs]

omit [LinearOrder R] [Zero R] [Strconv R] in
/-- A key the map has is not one it lacks. -/
theorem ne_of_lookup {entries : GoMap GoString (Value R)} {key k : GoString} {v : Value R}
    (habs : entries.lookup key = none) (hk : entries.lookup k = some v) : k ≠ key := by
  rintro rfl
  rw [habs] at hk
  cases hk

/-- The tree of the values, to which a value is added that no key has: it holds that value
and those the keys have. -/
theorem Holds.mem_values_added [LawfulOrderedTree T] (h : idx.Holds) {item : Value R}
    (hitem : item.Normal) {v : Value R} :
    v ∈ OrderedTree.items (match idx.inverted.lookup item with
      | none => OrderedTree.replaceOrInsert less idx.values item
      | some _ => idx.values) ↔ v = item ∨ ∃ k, idx.entries.lookup k = some v := by
  cases hv : idx.inverted.lookup item with
  | none =>
    have hno := h.inverted_none.mp hv
    show v ∈ OrderedTree.items (OrderedTree.replaceOrInsert less idx.values item) ↔ _
    rw [LawfulOrderedTree.mem_replaceOrInsert Value.less_iff_rank h.values_sorted, h.mem_values]
    refine or_congr_right ⟨fun hr => hr.1, fun hr => ⟨hr, fun hrank => ?_⟩⟩
    obtain ⟨k, hk⟩ := hr
    have heq : v = item := (h.normal k v hk).eq_of_rank hitem hrank
    exact hno k (heq ▸ hk)
  | some held =>
    have hyes : ∃ k, idx.entries.lookup k = some item := by
      by_contra hno
      have hnone := h.inverted_none.mpr (fun k hk => hno ⟨k, hk⟩)
      rw [hv] at hnone
      cases hnone
    show v ∈ OrderedTree.items idx.values ↔ _
    rw [h.mem_values]
    exact ⟨Or.inr, fun hr => hr.elim (fun heq => heq ▸ hyes) id⟩

/-- Adding a key that is absent, with a normal value, keeps the invariant. -/
theorem Holds.add [LawfulOrderedTree T] (h : idx.Holds) {key : GoString} {item : Value R}
    (hitem : item.Normal) (habs : idx.entries.lookup key = none) :
    Holds { keys := OrderedTree.replaceOrInsert lessKey idx.keys key,
            values := match idx.inverted.lookup item with
              | none => OrderedTree.replaceOrInsert less idx.values item
              | some _ => idx.values,
            entries := idx.entries.insert key item,
            inverted := idx.inverted.insert item
              (insert key ((idx.inverted.lookup item).getD ∅)) } where
  keys_sorted := LawfulOrderedTree.sorted_replaceOrInsert lessKey_iff h.keys_sorted key
  mem_keys k := by
    show k ∈ OrderedTree.items (OrderedTree.replaceOrInsert lessKey idx.keys key)
      ↔ ∃ v, (idx.entries.insert key item).lookup k = some v
    rw [LawfulOrderedTree.mem_replaceOrInsert lessKey_iff h.keys_sorted, h.mem_keys]
    simp only [GoMap.lookup_insert_eq_some, id]
    constructor
    · rintro (rfl | ⟨⟨v, hv⟩, hne⟩)
      · exact ⟨item, Or.inl ⟨rfl, rfl⟩⟩
      · exact ⟨v, Or.inr ⟨hne, hv⟩⟩
    · rintro ⟨v, ⟨rfl, _⟩ | ⟨hne, hv⟩⟩
      · exact Or.inl rfl
      · exact Or.inr ⟨⟨v, hv⟩, hne⟩
  values_sorted := by
    cases idx.inverted.lookup item with
    | none =>
      exact LawfulOrderedTree.sorted_replaceOrInsert Value.less_iff_rank h.values_sorted item
    | some held => exact h.values_sorted
  mem_values v := by
    show v ∈ OrderedTree.items (match idx.inverted.lookup item with
      | none => OrderedTree.replaceOrInsert less idx.values item
      | some _ => idx.values) ↔ ∃ k, (idx.entries.insert key item).lookup k = some v
    rw [h.mem_values_added hitem]
    simp only [GoMap.lookup_insert_eq_some]
    constructor
    · rintro (rfl | ⟨k, hk⟩)
      · exact ⟨key, Or.inl ⟨rfl, rfl⟩⟩
      · exact ⟨k, Or.inr ⟨ne_of_lookup habs hk, hk⟩⟩
    · rintro ⟨k, ⟨_, rfl⟩ | ⟨_, hk⟩⟩
      · exact Or.inl rfl
      · exact Or.inr ⟨k, hk⟩
  mem_inverted v k := by
    show k ∈ ((idx.inverted.insert item _).lookup v).getD ∅
      ↔ (idx.entries.insert key item).lookup k = some v
    rw [GoMap.lookup_insert_eq_some]
    by_cases hv : v = item
    · subst hv
      rw [Finmap.lookup_insert, Option.getD_some, Finset.mem_insert, h.mem_inverted]
      constructor
      · rintro (rfl | hk)
        · exact Or.inl ⟨rfl, rfl⟩
        · exact Or.inr ⟨ne_of_lookup habs hk, hk⟩
      · rintro (⟨rfl, _⟩ | ⟨_, hk⟩)
        · exact Or.inl rfl
        · exact Or.inr hk
    · rw [Finmap.lookup_insert_of_ne _ hv, h.mem_inverted]
      constructor
      · exact fun hk => Or.inr ⟨ne_of_lookup habs hk, hk⟩
      · rintro (⟨_, heq⟩ | ⟨_, hk⟩)
        · exact absurd heq hv
        · exact hk
  inverted_ne v := by
    show (idx.inverted.insert item _).lookup v ≠ some ∅
    by_cases hv : v = item
    · subst hv
      rw [Finmap.lookup_insert]
      exact fun h0 => Finset.insert_ne_empty _ _ (Option.some.inj h0)
    · rw [Finmap.lookup_insert_of_ne _ hv]
      exact h.inverted_ne v
  normal k v hk := by
    rcases GoMap.lookup_insert_eq_some.mp hk with ⟨_, rfl⟩ | ⟨_, hk⟩
    · exact hitem
    · exact h.normal k v hk

/-- **`Set` keeps the invariant**, and gives the key the normalised value. -/
theorem Holds.set [LawfulOrderedTree T] (h : idx.Holds) (key : GoString) {text : GoString}
    {number : Bool} (hnum : number = true → Strconv.isFiniteNumber R text = true) :
    ∃ idx', idx.set key text number = .ok idx' ∧ idx'.Holds
      ∧ idx'.entries = idx.entries.insert key (normalised R text number) := by
  refine ⟨_, set_of_scalar (scalar_ok hnum), ?_, ?_⟩
  · refine (h.delete key).add (normalised_normal text number) ?_
    rw [delete_entries, Finmap.lookup_erase]
  · show (idx.delete key).entries.insert key _ = _
    rw [delete_entries]
    refine Finmap.ext_lookup (fun k => ?_)
    by_cases hk : k = key
    · rw [hk, Finmap.lookup_insert, Finmap.lookup_insert]
    · rw [Finmap.lookup_insert_of_ne _ hk, Finmap.lookup_insert_of_ne _ hk,
        Finmap.lookup_erase_ne hk]

end Index

end WasmRedis
