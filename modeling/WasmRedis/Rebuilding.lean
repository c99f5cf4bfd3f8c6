import WasmRedis.EngineInvariant
import WasmRedis.Searches

/-!
# An index kept and an index rebuilt

`Restore` builds the index of a state from nothing, in whatever order the map gives the
keys. The engine never does so again: each `Set` and each `Delete` moves the four
structures of the index along. That both arrive at the same index is a matter of what an
index is. Its structures agree (`Holds`), so each of them is determined by the map from
keys to values (`Holds.same`), and that map by the text and the type flag that each key
was given last. It does not matter either which package the trees are of.

The trees tell two values apart by `less`, and the maps by equality. For values in
general these differ; for those that `scalar` gives they do not
(`Scalar.eq_iff_ties`).
-/

namespace WasmRedis

open GoString

variable {R : Type} [LinearOrder R] [Zero R] [Strconv R]

/-! ## The order of the values -/

namespace Value

/-- A value that `scalar` can give. -/
def Scalar (v : Value R) : Prop := ∃ text number, scalar text number = .ok v

theorem scalar_normalised {text : GoString} {number : Bool}
    (h : number = true → Strconv.isFiniteNumber R text = true) :
    (normalised R text number).Scalar := ⟨text, number, scalar_ok h⟩

theorem Scalar.normal {v : Value R} (h : v.Scalar) : v.Normal := by
  obtain ⟨text, number, hv⟩ := h
  rw [scalar_eq] at hv
  split_ifs at hv with hbad
  obtain rfl := Except.ok.inj hv
  exact normalised_normal text number

omit [Zero R] [Strconv R] in
theorem less_irrefl (a : Value R) : less a a = false := by
  rw [← Bool.not_eq_true, less_iff_rank]
  exact lt_irrefl _

omit [Zero R] [Strconv R] in
theorem less_trans {a b c : Value R} (hab : less a b = true) (hbc : less b c = true) :
    less a c = true := by
  rw [less_iff_rank] at hab hbc ⊢
  exact hab.trans hbc

/-- **The values that tie are equal**, among those `scalar` gives: the trees and the
maps have the same notion of a value. -/
theorem Scalar.eq_iff_ties {a b : Value R} (ha : a.Scalar) (hb : b.Scalar) :
    a = b ↔ less a b = false ∧ less b a = false := by
  constructor
  · rintro rfl
    exact ⟨less_irrefl a, less_irrefl a⟩
  · rintro ⟨hab, hba⟩
    rw [← Bool.not_eq_true, less_iff_rank, not_lt] at hab hba
    exact ha.normal.eq_of_rank hb.normal (le_antisymm hba hab)

end Value

/-! ## An index and its map -/

namespace Index

variable {T T' : Type → Type} [OrderedTree T] [OrderedTree T'] {idx : Index R T} {idx' : Index R T'}

/-- Indexes that hold the same. The degrees of their trees, which nothing observes,
may differ. -/
structure Same (idx : Index R T) (idx' : Index R T') : Prop where
  /-- The same keys. -/
  keys : OrderedTree.items idx.keys = OrderedTree.items idx'.keys
  /-- The same values. -/
  values : OrderedTree.items idx.values = OrderedTree.items idx'.values
  /-- The same map. -/
  entries : idx.entries = idx'.entries
  /-- The same inverted map. -/
  inverted : idx.inverted = idx'.inverted

/-- A key is in the inverted set of a value exactly if the map says so. -/
theorem Holds.inverted_iff (h : idx.Holds) (v : Value R) (key : GoString) :
    (∃ held, idx.inverted.lookup v = some held ∧ key ∈ held)
      ↔ idx.entries.lookup key = some v := by
  rw [← h.mem_inverted v key]
  cases idx.inverted.lookup v with
  | none => simp
  | some held => simp

/-- The value tree holds the values that have an inverted set. -/
theorem Holds.mem_values_iff (h : idx.Holds) (v : Value R) :
    v ∈ OrderedTree.items idx.values ↔ ∃ held, idx.inverted.lookup v = some held := by
  rw [h.mem_values]
  constructor
  · rintro ⟨key, hk⟩
    obtain ⟨held, hheld, _⟩ := (h.inverted_iff v key).mpr hk
    exact ⟨held, hheld⟩
  · rintro ⟨held, hheld⟩
    obtain ⟨key, hkey⟩ : held.Nonempty :=
      Finset.nonempty_iff_ne_empty.mpr (fun hempty => h.inverted_ne v (hempty ▸ hheld))
    exact ⟨key, (h.inverted_iff v key).mp ⟨held, hheld, hkey⟩⟩

/-- What the inverted map has for a value, read off its keys. -/
theorem Holds.inverted_lookup (h : idx.Holds) (v : Value R) :
    idx.inverted.lookup v = if (idx.inverted.lookup v).getD ∅ = ∅ then none
      else some ((idx.inverted.lookup v).getD ∅) := by
  have hne := h.inverted_ne v
  cases hv : idx.inverted.lookup v with
  | none => rfl
  | some held =>
    rw [hv] at hne
    rw [Option.getD_some, if_neg (fun hempty => hne (congrArg some hempty))]

/-- **The map determines the rest.** -/
theorem Holds.same (h : idx.Holds) (h' : idx'.Holds) (heq : idx.entries = idx'.entries) :
    idx.Same idx' where
  keys := h.keys_sorted.items_eq h'.keys_sorted (fun key => by
    rw [h.mem_keys, h'.mem_keys, heq])
  values := h.values_sorted.items_eq h'.values_sorted (fun v => by
    rw [h.mem_values, h'.mem_values, heq])
  entries := heq
  inverted := by
    refine Finmap.ext_lookup (fun v => ?_)
    have hheld : (idx.inverted.lookup v).getD ∅ = (idx'.inverted.lookup v).getD ∅ := by
      ext key
      rw [h.mem_inverted, h'.mem_inverted, heq]
    rw [h.inverted_lookup, h'.inverted_lookup, hheld]

/-! ## What each key was given last -/

/-- **The index represents the texts**: its map has the normalised value of each, and its
other three structures say the same thing as the map. -/
structure Represents (idx : Index R T) (texts : Texts) : Prop where
  /-- The map has the keys of the texts, with their normalised values. -/
  entries : ∀ key, idx.entries.lookup key
    = (texts.lookup key).map (fun item => normalised R item.1 item.2)
  /-- Its values are among those that `scalar` gives. -/
  scalar : ∀ key v, idx.entries.lookup key = some v → v.Scalar
  /-- The key tree holds the keys of the map. -/
  mem_keys : ∀ key, key ∈ OrderedTree.items idx.keys ↔ key ∈ idx.entries
  /-- And holds each of them once. -/
  nodup_keys : (OrderedTree.items idx.keys).Nodup
  /-- A key is in the inverted set of a value exactly if the map gives it that value. -/
  mem_inverted : ∀ v key, (∃ held, idx.inverted.lookup v = some held ∧ key ∈ held)
    ↔ idx.entries.lookup key = some v
  /-- No inverted set is empty. -/
  inverted_nonempty : ∀ v held, idx.inverted.lookup v = some held → held.Nonempty
  /-- The value tree holds the values that have an inverted set. -/
  mem_values : ∀ v, v ∈ OrderedTree.items idx.values ↔ v ∈ idx.inverted
  /-- And holds each of them once. -/
  nodup_values : (OrderedTree.items idx.values).Nodup

/-- The texts of which every number is a finite one. -/
def Numeric (R : Type) [Strconv R] (texts : Texts) : Prop :=
  ∀ key text, texts.lookup key = some (text, true) → Strconv.isFiniteNumber R text = true

omit [LinearOrder R] [Zero R] in
/-- A text that is not a finite number is never taken for one. -/
theorem numeric_after (calls : List Call) : Numeric R ((reference R).after ∅ calls) := by
  refine (System.admits_of_forall (fun _ _ => trivial) ∅ calls).invariant ?_
    (fun texts call _ htexts => ?_)
  · intro key text hk
    rw [Finmap.lookup_empty] at hk
    cases hk
  · intro key text hk
    cases call with
    | set key' text' number =>
      unfold reference at hk
      dsimp only at hk
      split_ifs at hk with hbad
      · exact htexts key text hk
      · obtain ⟨_, heq⟩ | ⟨_, hk⟩ := GoMap.lookup_insert_eq_some.mp hk
        · cases heq
          simpa using hbad
        · exact htexts key text hk
    | delete key' => exact htexts key text (GoMap.lookup_erase_eq_some.mp hk).2

theorem Tells.represents {texts : Texts} (h : idx.Tells texts) (hnum : Numeric R texts) :
    idx.Represents texts where
  entries := h.entries
  scalar key v hk := by
    rw [h.entries, Option.map_eq_some_iff] at hk
    obtain ⟨⟨text, number⟩, htext, rfl⟩ := hk
    refine Value.scalar_normalised (fun hflag => hnum key text ?_)
    rw [htext, show number = true from hflag]
  mem_keys key := by rw [h.holds.mem_keys, Finmap.mem_iff]
  nodup_keys := h.holds.keys_sorted.nodup
  mem_inverted := h.holds.inverted_iff
  inverted_nonempty v held hheld :=
    Finset.nonempty_iff_ne_empty.mpr (fun hempty => h.holds.inverted_ne v (hempty ▸ hheld))
  mem_values v := by rw [h.holds.mem_values_iff, Finmap.mem_iff]
  nodup_values := h.holds.values_sorted.nodup

/-- Indexes of the same texts are the same. -/
theorem Tells.same {texts : Texts} (h : idx.Tells texts) (h' : idx'.Tells texts) :
    idx.Same idx' :=
  h.holds.same h'.holds (Finmap.ext_lookup (fun key => by rw [h.entries, h'.entries]))

/-- **The index that is rebuilt**, where the state has the texts of the index. -/
theorem Tells.rebuilt {texts : Texts} (h : idx.Tells texts) (hnum : Numeric R texts)
    {state : State}
    (hstate : ∀ key, (state.lookup key).map (fun entry => (entry.value, entry.isNumber))
      = texts.lookup key) (r : RangeOrder GoString) (degree : ℤ) :
    ∃ idx', buildIndex r degree state = .ok idx' ∧ idx.Same idx' := by
  have hfinite : ∀ key entry, state.lookup key = some entry → entry.isNumber = true →
      Strconv.isFiniteNumber R entry.value = true := by
    intro key entry hk hflag
    refine hnum key entry.value ?_
    rw [← hstate, hk, Option.map_some, hflag]
  obtain ⟨idx', hbuild, hmirrors⟩ := buildIndex_mirrors r degree hfinite
  refine ⟨idx', hbuild, h.holds.same hmirrors.holds (Finmap.ext_lookup (fun key => ?_))⟩
  rw [h.entries, hmirrors.entries, ← hstate, Option.map_map]
  rfl

/-- **The index of a reachable engine** is the one that is rebuilt from its state. -/
theorem Mirrors.rebuilt {idx : Index R} {state : State} (h : idx.Mirrors state)
    (hgood : state.Good R) (r : RangeOrder GoString) (degree : ℤ) :
    ∃ idx', buildIndex r degree state = .ok idx' ∧ idx.Same idx' := by
  obtain ⟨idx', hbuild, hmirrors⟩ :=
    buildIndex_mirrors r degree (fun key entry hk => (hgood key entry hk).2)
  exact ⟨idx', hbuild, h.holds.same hmirrors.holds
    (Finmap.ext_lookup (fun key => by rw [h.entries, hmirrors.entries]))⟩

/-- **The representation invariant.** After any calls to `Set` and `Delete` from `New`, the
four structures of an index say the same thing, which is what each key was given last;
`less` is a strict order, total on the values that `scalar` gives, where it ties exactly
the equal ones. So two indexes whose keys were given the same are the same, and so are an
index and the one that `Restore` builds from a state with these texts, in any order of
iteration and with trees of any degree; in particular the index of every reachable engine
is the one that `Restore` would build from its state. -/
theorem representation [LawfulOrderedTree T] (degree : ℤ) (calls : List Call) :
    ((system R).after (new degree : Index R T) calls).Represents ((reference R).after ∅ calls)
    ∧ ((∀ a : Value R, less a a = false)
      ∧ (∀ a b c : Value R, less a b = true → less b c = true → less a c = true)
      ∧ ∀ a b : Value R, a.Scalar → b.Scalar → (a = b ↔ less a b = false ∧ less b a = false))
    ∧ (∀ degree' calls', (reference R).after ∅ calls' = (reference R).after ∅ calls →
      ((system R).after (new degree : Index R T) calls).Same
        ((system R).after (new degree' : Index R T) calls'))
    ∧ (∀ state : State,
      (∀ key, (state.lookup key).map (fun entry => (entry.value, entry.isNumber))
        = ((reference R).after ∅ calls).lookup key) →
      ∀ r degree', ∃ idx', buildIndex r degree' state = .ok idx'
        ∧ ((system R).after (new degree : Index R T) calls).Same idx')
    ∧ ∀ e : Engine R, e.Reachable →
      ∀ r degree', ∃ idx', buildIndex r degree' e.state = .ok idx' ∧ e.index.Same idx' := by
  obtain ⟨_, htells⟩ := tells_after (R := R) (T := T) degree calls
  have hnum := numeric_after (R := R) calls
  refine ⟨htells.represents hnum, ⟨Value.less_irrefl, fun a b c => Value.less_trans,
    fun a b ha hb => ha.eq_iff_ties hb⟩, fun degree' calls' htexts => ?_,
    fun state hstate r degree' => htells.rebuilt hnum hstate r degree',
    fun e he r degree' => he.sound.mirrors.rebuilt he.sound.good r degree'⟩
  obtain ⟨_, htells'⟩ := tells_after (R := R) (T := T) degree' calls'
  rw [htexts] at htells'
  exact htells.same htells'

/-- What the sample calls leave, set in another order and in trees of another degree. -/
theorem representation_sample :
    ((system ℕ).after (new 2 : Index ℕ) sampleCalls).Same ((system ℕ).after (new 7 : Index ℕ)
      [.set (str "e") (str "3") true, .set (str "c") (str "2") false,
        .set (str "b") (str "02") true, .set (str "a") (str "2") true]) :=
  (representation (T := BTree) 2 sampleCalls).2.2.1 7 _ (by decide)

end Index

end WasmRedis
