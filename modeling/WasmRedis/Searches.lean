import WasmRedis.Foundation.Runs
import WasmRedis.Queries

/-!
# Searches in an index

An index is used through three operations, and what it is for needs one map: the
text and the type flag that each key was last given. `Set` and `Delete` are the
map's (`tells_after`), where a `Set` of a number that is not finite fails and
leaves the key what it had. `Find` is a search through the map, key by key
(`find_eq_scan`), which reads the texts as numbers and compares these. The trees are
those of any package that keeps the laws of an ordered set.
-/

namespace WasmRedis

open GoString

namespace Index

/-- The calls that change an index. -/
inductive Call where
  /-- `Set`. -/
  | set (key text : GoString) (number : Bool)
  /-- `Delete`. -/
  | delete (key : GoString)

/-- The text and the type flag of each key. -/
abbrev Texts := GoMap GoString (GoString × Bool)

section

variable (R : Type) [LinearOrder R] [Zero R] [Strconv R] {T : Type → Type} [OrderedTree T]

/-- An index, which answers whether a call succeeded. A `Set` that fails leaves it
as it was. -/
def system : System (Index R T) Call Bool where
  admits _ _ := True
  step idx
    | .set key text number =>
      match idx.set key text number with
      | .error _ => (false, idx)
      | .ok idx => (true, idx)
    | .delete key => (true, idx.delete key)

omit [LinearOrder R] [Zero R] in
/-- The map of what each key was given last. -/
def reference : System Texts Call Bool where
  admits _ _ := True
  step texts
    | .set key text number =>
      if number && !Strconv.isFiniteNumber R text then (false, texts)
      else (true, texts.insert key (text, number))
    | .delete key => (true, texts.erase key)

/-- A linear search: the keys of the map whose text satisfies the query, in
order. -/
def scan (texts : Texts) (field operator operand : GoString) (number : Bool) : List GoString :=
  sortStrings ((RangeOrder.sorted.list texts.keys).filter (fun key =>
    (texts.lookup key).any (fun item => satisfies R field operator operand number
      { key := key, value := item.1, isNumber := item.2, expiresAt := Time.zero })))

end

variable {R : Type} [LinearOrder R] [Zero R] [Strconv R] {T : Type → Type} [OrderedTree T]
  {idx : Index R T} {texts : Texts}

/-- **The index of a map**: its structures agree, and have the normalised value of
each text. -/
structure Tells (idx : Index R T) (texts : Texts) : Prop where
  /-- The structures of the index agree. -/
  holds : idx.Holds
  /-- They hold the texts. -/
  entries : ∀ key, idx.entries.lookup key
    = (texts.lookup key).map (fun item => normalised R item.1 item.2)

/-- **A call**: the index and the map answer the same, and the index stays that of
the map. -/
theorem Tells.step [LawfulOrderedTree T] (h : idx.Tells texts) (call : Call) :
    ((system R).step idx call).1 = ((reference R).step texts call).1
      ∧ ((system R).step idx call).2.Tells ((reference R).step texts call).2 := by
  cases call with
  | set key text number =>
    unfold system reference
    dsimp only
    by_cases hbad : (number && !Strconv.isFiniteNumber R text) = true
    · have hfails : idx.set key text number = .error (.new (str "nombre fini requis")) :=
        set_of_scalar_error (by rw [scalar_eq, if_pos hbad])
      rw [hfails, if_pos hbad]
      exact ⟨rfl, h⟩
    · have hnum : number = true → Strconv.isFiniteNumber R text = true := by
        rintro rfl
        simpa using hbad
      obtain ⟨idx', hset, hholds, hentries⟩ := h.holds.set key hnum
      rw [hset, if_neg hbad]
      refine ⟨rfl, hholds, fun key' => ?_⟩
      rw [hentries]
      by_cases hkey : key' = key
      · rw [hkey, Finmap.lookup_insert, Finmap.lookup_insert]
        rfl
      · rw [Finmap.lookup_insert_of_ne _ hkey, Finmap.lookup_insert_of_ne _ hkey, h.entries]
  | delete key =>
    refine ⟨rfl, h.holds.delete key, fun key' => ?_⟩
    show (idx.delete key).entries.lookup key' = ((texts.erase key).lookup key').map _
    rw [delete_entries]
    by_cases hkey : key' = key
    · rw [hkey, Finmap.lookup_erase, Finmap.lookup_erase]
      rfl
    · rw [Finmap.lookup_erase_ne hkey, Finmap.lookup_erase_ne hkey, h.entries]

/-- **A run**: the calls answer as those of the map. -/
theorem tells_after [LawfulOrderedTree T] (degree : ℤ) (calls : List Call) :
    (system R).answers (new degree : Index R T) calls = (reference R).answers ∅ calls
      ∧ ((system R).after (new degree : Index R T) calls).Tells ((reference R).after ∅ calls) := by
  have hstart : (new degree : Index R T).Tells ∅ := ⟨new_holds degree, fun key => by simp⟩
  exact System.simulation_answers Tells (System.admits_of_forall (fun _ _ => trivial) _ calls)
    hstart (fun idx texts call _ h => h.step call)

/-- A linear search returns the keys that satisfy the query, each once and in
order. -/
theorem scan_spec (texts : Texts) (field operator operand : GoString) (number : Bool) :
    (scan R texts field operator operand number).Pairwise (· < ·)
      ∧ ∀ key, key ∈ scan R texts field operator operand number ↔
        ∃ text flag, texts.lookup key = some (text, flag)
          ∧ satisfies R field operator operand number
            { key := key, value := text, isNumber := flag, expiresAt := Time.zero } = true := by
  refine ⟨sortStrings_strict ((RangeOrder.sorted.nodup _).filter _), fun key => ?_⟩
  unfold scan
  rw [mem_sortStrings, List.mem_filter, RangeOrder.sorted.mem_list, Finmap.mem_keys]
  cases hk : texts.lookup key with
  | none =>
    exact iff_of_false (fun h => Bool.noConfusion h.2) (fun ⟨_, _, h, _⟩ => nomatch h)
  | some item =>
    rw [and_iff_right (Finmap.mem_of_lookup_eq_some hk)]
    constructor
    · exact fun h => ⟨item.1, item.2, rfl, h⟩
    · rintro ⟨text, flag, hitem, h⟩
      obtain rfl := Option.some.inj hitem
      exact h

/-- **Indexed search is linear search.** After any calls to `Set` and `Delete` from
`New`, whatever package the trees are of, a `Find` that returns no error returns what a
linear search through the map returns: exactly the keys whose text satisfies the query,
each once and in order. -/
theorem find_eq_scan [LawfulOrderedTree T] (degree : ℤ) (calls : List Call)
    (r : RangeOrder GoString) (field operator operand : GoString) (number : Bool)
    {keys : List GoString}
    (hfind : ((system R).after (new degree : Index R T) calls).find r field operator operand number
      = .ok keys) :
    keys = scan R ((reference R).after ∅ calls) field operator operand number
      ∧ keys.Pairwise (· < ·)
      ∧ ∀ key, key ∈ keys ↔
        ∃ text flag, ((reference R).after ∅ calls).lookup key = some (text, flag)
          ∧ satisfies R field operator operand number
            { key := key, value := text, isNumber := flag, expiresAt := Time.zero } = true := by
  obtain ⟨_, htells⟩ := tells_after (R := R) (T := T) degree calls
  generalize (system R).after (new degree : Index R T) calls = idx at hfind htells
  generalize (reference R).after ∅ calls = texts at htells ⊢
  have hq : ¬ Refused R field operator operand number := by
    intro hrefused
    obtain ⟨err, herr⟩ := find_refused r idx hrefused
    rw [herr] at hfind
    exact nomatch hfind
  obtain ⟨keys', hfind', hsorted, hmem⟩ := htells.holds.find_spec r hq
  obtain rfl := Except.ok.inj (hfind.symm.trans hfind')
  obtain ⟨hscan, hscanned⟩ := scan_spec (R := R) texts field operator operand number
  have hkeys : ∀ key, key ∈ keys ↔ key ∈ scan R texts field operator operand number := by
    intro key
    rw [hmem, hscanned, htells.entries]
    have hselects := fun text flag => selects_normalised (R := R) field operator operand number
      { key := key, value := text, isNumber := flag, expiresAt := Time.zero }
    simp only [Option.map_eq_some_iff, Prod.exists]
    constructor
    · rintro ⟨_, ⟨text, flag, hk, rfl⟩, h⟩
      exact ⟨text, flag, hk, (hselects text flag).symm.trans h⟩
    · rintro ⟨text, flag, hk, h⟩
      exact ⟨_, ⟨text, flag, hk, rfl⟩, (hselects text flag).trans h⟩
  have heq : keys = scan R texts field operator operand number :=
    List.Subset.antisymm_of_pairwise hsorted hscan (fun key => (hkeys key).mp)
      (fun key => (hkeys key).mpr)
  refine ⟨heq, hsorted, fun key => ?_⟩
  rw [hkeys, hscanned]

/-- A `Set` that fails, a key given another type, and one that is deleted. -/
def sampleCalls : List Call :=
  [.set (str "a") (str "2") true, .set (str "b") (str "02") true, .set (str "c") (str "2") false,
    .set (str "a") (str "x") true, .set (str "d") (str "2") true, .delete (str "d"),
    .set (str "e") (str "2") false, .set (str "e") (str "3") true]

theorem find_eq_scan_sample :
    [str "a", str "b"]
      = scan ℕ ((reference ℕ).after ∅ sampleCalls) (str "value") (str "equals") (str "2") true :=
  (find_eq_scan (R := ℕ) (T := BTree) 2 sampleCalls RangeOrder.sorted (str "value") (str "equals")
    (str "2") true (by decide)).1

end Index

end WasmRedis
