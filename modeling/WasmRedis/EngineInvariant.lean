import WasmRedis.Restoring
import WasmRedis.StorageCalls

/-!
# The invariant of the engine

In every engine that calls can reach, the entries are good – each is under its
own key, and a number is a finite one – and the index mirrors them. A change of
the entries keeps this (`Change.sound`), the storage calls leave entries and
index alone, and `Restore` rebuilds the index from what it reads.
-/

namespace WasmRedis

open GoString

variable {R : Type} [LinearOrder R] [Zero R] [Strconv R]

namespace Index.Mirrors

variable {idx : Index R} {state : State}

/-- An empty index mirrors the empty state. -/
theorem new (degree : ℤ) : (Index.new degree : Index R).Mirrors ∅ where
  holds := Index.new_holds degree
  entries key := by
    rw [Index.new_entries, Finmap.lookup_empty, Finmap.lookup_empty]
    rfl

/-- Setting a key on both sides. -/
theorem set (h : idx.Mirrors state) {entry : Entry}
    (hnum : entry.isNumber = true → Strconv.isFiniteNumber R entry.value = true) :
    ∃ idx', idx.set entry.key entry.value entry.isNumber = .ok idx'
      ∧ idx'.Mirrors (state.insert entry.key entry) := by
  obtain ⟨idx', hset, hholds, hent⟩ := h.holds.set entry.key hnum
  refine ⟨idx', hset, hholds, fun key => ?_⟩
  rw [hent]
  by_cases hk : key = entry.key
  · rw [hk, Finmap.lookup_insert, Finmap.lookup_insert]
    rfl
  · rw [Finmap.lookup_insert_of_ne _ hk, Finmap.lookup_insert_of_ne _ hk, h.entries]

/-- Deleting a key on both sides. -/
theorem delete (h : idx.Mirrors state) (key : GoString) :
    (idx.delete key).Mirrors (state.erase key) where
  holds := h.holds.delete key
  entries k := by
    rw [Index.delete_entries]
    by_cases hk : k = key
    · rw [hk, Finmap.lookup_erase, Finmap.lookup_erase]
      rfl
    · rw [Finmap.lookup_erase_ne hk, Finmap.lookup_erase_ne hk, h.entries]

end Index.Mirrors

namespace Engine

/-- **The invariant**: the entries are good, and the index mirrors them. -/
structure Sound (e : Engine R) : Prop where
  /-- The entries are good. -/
  good : State.Good R e.state
  /-- The index mirrors them. -/
  mirrors : e.index.Mirrors e.state

theorem sound_new : (new : Engine R).Sound where
  good := State.good_empty
  mirrors := Index.Mirrors.new _

theorem Sound.onlyStorage {e e' : Engine R} (h : e.Sound) (heq : OnlyStorage e e') :
    e'.Sound := by
  obtain ⟨store, buffer, rfl⟩ := heq
  exact ⟨h.good, h.mirrors⟩

/-- A change keeps the invariant. -/
theorem Change.sound {lo hi : Time} {e e' : Engine R} (h : Change lo hi e e') (hs : e.Sound) :
    e'.Sound := by
  cases h with
  | put entry index ttl now hcl hlo hhi hdl hrange hnum hidx =>
    obtain ⟨index', hset, hmirrors⟩ := hs.mirrors.set hnum
    rw [hidx] at hset
    cases hset
    refine ⟨?_, ?_⟩
    · rw [record_state]
      exact hs.good.insert hnum
    · rw [record_state, record_index]
      exact hmirrors
  | remove key hcl =>
    refine ⟨?_, ?_⟩
    · rw [remove_state]
      exact hs.good.of_sub (fun _ _ => lookup_erase_sub)
    · rw [remove_state, remove_index]
      exact hs.mirrors.delete key

theorem Changes.sound {lo hi : Time} {e e' : Engine R} (h : Changes lo hi e e')
    (hs : e.Sound) : e'.Sound := by
  induction h with
  | refl => exact hs
  | tail _ hlast ih => exact hlast.sound ih

/-- **What a change records**: one operation, numbered next, that `applyOp`
accepts and that does to a state what the change did to the entries – with the
same entry if its deadline can be stored. -/
theorem Change.recorded {lo hi : Time} {e e' : Engine R} (h : Change lo hi e e')
    (hstore : e.store ≠ none) :
    ∃ op : Op, e'.buffer = e.buffer ++ [op] ∧ e'.sequence = e.sequence + 1
      ∧ op.sequence = e.sequence + 1 ∧ op.Valid R
      ∧ (op.kind = kindSet ∧ (∃ entry, e'.state = Finmap.insert op.key entry e.state
            ∧ (entry.Storable → op.toEntry = entry))
          ∨ op.kind = kindDelete ∧ e'.state = Finmap.erase op.key e.state) := by
  cases h with
  | put entry index ttl now hcl hlo hhi hdl hrange hnum hidx =>
    refine ⟨e.recordedOp kindSet entry, record_buffer _ _ _ hstore, record_sequence _ _ _ hstore,
      rfl, Or.inl ⟨rfl, hnum⟩, Or.inl ⟨rfl, entry, record_state _ _ _, fun hstored => ?_⟩⟩
    unfold recordedOp Op.toEntry
    dsimp only
    rw [hstored]
  | remove key hcl =>
    exact ⟨e.recordedOp kindDelete (tombstone key), record_buffer _ _ _ hstore,
      record_sequence _ _ _ hstore, rfl, Or.inr rfl, Or.inr ⟨rfl, remove_state e key⟩⟩

/-- A change keeps the entries storable, if the clock is after 1970. -/
theorem Change.storable {lo hi : Time} {e e' : Engine R} (h : Change lo hi e e') (h0 : 0 ≤ lo)
    (hs : ∀ key entry, e.state.lookup key = some entry → entry.Storable) :
    ∀ key entry, e'.state.lookup key = some entry → entry.Storable := by
  cases h with
  | put entry index ttl now hcl hlo hhi hdl hrange hnum hidx =>
    intro key entry' hk
    rw [record_state] at hk
    by_cases hkk : key = entry.key
    · rw [hkk, Finmap.lookup_insert] at hk
      rw [← Option.some.inj hk]
      rw [hdl] at hrange
      have hstored := ofStored_toStored_deadline (deadline_ne_zero (h0.trans hlo)) hrange
      rwa [← hdl] at hstored
    · rw [Finmap.lookup_insert_of_ne _ hkk] at hk
      exact hs key entry' hk
  | remove key hcl =>
    intro key' entry hk
    rw [remove_state] at hk
    exact hs key' entry (lookup_erase_sub hk)

/-- **All that changes record is accepted by a replay**, over any state. -/
theorem Changes.recorded {lo hi : Time} {e e' : Engine R} (h : Changes lo hi e e') :
    ∃ ops, e'.buffer = e.buffer ++ ops ∧ ∀ op ∈ ops, op.Valid R := by
  induction h with
  | refl => exact ⟨[], (List.append_nil _).symm, nofun⟩
  | @tail e₁ e₂ _ hlast ih =>
    obtain ⟨ops, hbuf, hvalid⟩ := ih
    by_cases hstore : e₁.store = none
    · exact ⟨ops, (hlast.buffer_of_none hstore).trans hbuf, hvalid⟩
    · obtain ⟨op, hbuf', _, _, hop, _⟩ := hlast.recorded hstore
      refine ⟨ops ++ [op], by rw [hbuf', hbuf, List.append_assoc], fun op' hop' => ?_⟩
      obtain hop' | hop' := List.mem_append.mp hop'
      · exact hvalid op' hop'
      · exact List.mem_singleton.mp hop' ▸ hop

/-- An engine that holds what `Restore` has read. -/
theorem restored_sound (e : Engine R) {r : RestoreOrders} {now : GoString → Time}
    {store : Storage} {state : State} {sequence : ℕ} {index : Index R}
    (hreplays : store.Replays R state sequence)
    (hmirrors : index.Mirrors (dropExpired r.expiry now state)) :
    (e.restored r now state sequence index).Sound where
  good := hreplays.good.of_sub (fun _ _ => lookup_of_dropExpired)
  mirrors := hmirrors

theorem restore_sound {e : Engine R} (hs : e.Sound) (r : RestoreOrders)
    (now : GoString → Time) (fails : ReadFailures) : (e.restore r now fails).2.Sound := by
  obtain ⟨_, heq⟩ | ⟨err, heq⟩ | ⟨store, state, sequence, index, _, _, _, hreplays,
    hmirrors, heq⟩ := e.restore_cases r now fails
  · rwa [heq]
  · rwa [heq]
  · rw [heq]
    exact restored_sound e hreplays hmirrors

/-- **Every call keeps the invariant.** -/
theorem call_sound {e : Engine R} (hs : e.Sound) (c : Call) : (e.call c).2.Sound := by
  by_cases hc : c.UsesStorage
  · cases c with
    | flush reply => exact hs.onlyStorage (flush_only e reply)
    | snapshot r now replies => exact hs.onlyStorage (snapshot_only r e now replies)
    | restore r now fails => exact restore_sound hs r now fails
    | close reply =>
      obtain ⟨e', honly, heq | heq⟩ := close_only e reply
      · exact heq ▸ hs.onlyStorage honly
      · have hs' := hs.onlyStorage honly
        exact heq ▸ ⟨hs'.good, hs'.mirrors⟩
    | _ => exact hc.elim
  · obtain ⟨lo, hi, hw⟩ := Call.exists_within hc
    exact (call_changes hc hw).sound hs

/-- What `NewWithStorage` returns: the fresh engine over the storage, restored. -/
theorem newWithStorage_ok {abs : GoString → Except Err GoString} {store : Option Storage}
    {cfg : Config} {r : RestoreOrders} {now : GoString → Time} {fails : ReadFailures}
    {e : Engine R} (h : newWithStorage abs store cfg r now fails = .ok e) :
    ∃ s, store = some s ∧ cfg.validate abs = .ok ()
      ∧ restore r { (new : Engine R) with store := some s, cfg := cfg } now fails = (none, e) := by
  unfold newWithStorage at h
  cases store with
  | none => cases h
  | some s =>
    refine ⟨s, rfl, ?_⟩
    dsimp only at h
    cases hv : cfg.validate abs with
    | error err =>
      rw [hv] at h
      cases h
    | ok u =>
      rw [hv] at h
      dsimp only at h
      cases hr : restore r { (new : Engine R) with store := some s, cfg := cfg } now fails with
      | mk err e' =>
        rw [hr] at h
        cases err with
        | none =>
          cases h
          exact ⟨rfl, rfl⟩
        | some err => cases h

/-- **The engine `NewWithStorage` returns** holds the part of the storage that has
not expired. -/
theorem newWithStorage_restored {abs : GoString → Except Err GoString} {store : Storage}
    {cfg : Config} {r : RestoreOrders} {now : GoString → Time} {fails : ReadFailures}
    {e : Engine R} (h : newWithStorage abs (some store) cfg r now fails = .ok e) :
    cfg.validate abs = .ok () ∧ ∃ state sequence index, store.Replays R state sequence
      ∧ index.Mirrors (dropExpired r.expiry now state)
      ∧ e = restored { (new : Engine R) with store := some store, cfg := cfg } r now state
          sequence index := by
  obtain ⟨s, hs, hv, hr⟩ := newWithStorage_ok h
  cases hs
  obtain ⟨hnone, _⟩ | ⟨err, heq⟩ | ⟨store', state, sequence, index, hstore, _, _, hreplays,
    hmirrors, heq⟩ := restore_cases { (new : Engine R) with store := some store, cfg := cfg } r
      now fails
  · cases hnone
  · rw [hr] at heq
    cases heq
  · rw [hr] at heq
    cases heq
    cases hstore
    exact ⟨hv, state, sequence, index, hreplays, hmirrors, rfl⟩

/-- **What a storage holds is returned** as an engine, with valid settings. -/
theorem newWithStorage_of_replays {abs : GoString → Except Err GoString} {store : Storage}
    {cfg : Config} (r : RestoreOrders) (now : GoString → Time) (hcfg : cfg.validate abs = .ok ())
    {state : State} {sequence : ℕ} (h : store.Replays R state sequence) :
    ∃ e : Engine R, newWithStorage abs (some store) cfg r now {} = .ok e
      ∧ e.state = dropExpired r.expiry now state ∧ e.sequence = sequence := by
  let fresh : Engine R := { (new : Engine R) with store := some store, cfg := cfg }
  obtain ⟨index, hrestore, _⟩ := restore_of_replays (e := fresh) r now rfl rfl rfl rfl h
  refine ⟨fresh.restored r now state sequence index, ?_, rfl, rfl⟩
  unfold newWithStorage
  dsimp only
  rw [hcfg]
  dsimp only
  rw [hrestore]

omit [LinearOrder R] [Zero R] [Strconv R] in
/-- What `NewMemory` returns: a fresh engine. -/
theorem newMemory_ok {abs : GoString → Except Err GoString} {cfg : Config} {e : Engine R}
    (h : newMemory abs cfg = .ok e) : cfg.validate abs = .ok ()
      ∧ e = { (new : Engine R) with cfg := cfg, index := Index.new cfg.bTreeOrder } := by
  unfold newMemory at h
  cases hv : cfg.validate abs with
  | error err =>
    rw [hv] at h
    cases h
  | ok u =>
    rw [hv] at h
    exact ⟨rfl, (Except.ok.inj h).symm⟩

theorem Opened.sound {e : Engine R} (h : Opened e) : e.Sound := by
  cases h with
  | new => exact sound_new
  | memory h =>
    rw [(newMemory_ok h).2]
    exact ⟨State.good_empty, Index.Mirrors.new _⟩
  | @withStorage abs store cfg r now fails e h =>
    obtain ⟨s, _, _, hr⟩ := newWithStorage_ok h
    have hfresh : Sound { (Engine.new : Engine R) with store := some s, cfg := cfg } :=
      ⟨State.good_empty, Index.Mirrors.new _⟩
    have hs := restore_sound hfresh r now fails
    rwa [hr] at hs

/-- **Every reachable engine satisfies the invariant.** -/
theorem Reachable.sound {e : Engine R} (h : e.Reachable) : e.Sound := by
  obtain ⟨e₀, calls, hopened, rfl⟩ := h
  exact (admits_system e₀ calls).invariant hopened.sound (fun _ c _ hs => call_sound hs c)

end Engine

end WasmRedis
