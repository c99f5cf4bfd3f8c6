import WasmRedis.EngineInvariant

/-!
# What a flush and a snapshot leave to be read

A storage holds a state (`Storage.Replays`), and the two ways in which an engine
writes to it are read here in these terms. A flush appends operations, perhaps
again, perhaps not all of them: the state gains those that were missing. A
snapshot replaces the state by the unexpired part of the entries, whether the
journal it makes superfluous is cleared or not.
-/

namespace WasmRedis

open GoString

variable {R : Type} [Strconv R]

/-! ## Flushes -/

/-- **Appending a part of what was recorded.** Of the operations recorded, a
storage includes the first `n`, and some of those from the `f`-th on are
appended to its journal. -/
theorem Storage.Replays.appended {store : Storage} {state : State} {start n f : ℕ}
    {recorded : List Op} (h : store.Replays R state (start + n))
    (hnum : NumberedLog.Numbered Op.sequence start recorded)
    (hvalid : ∀ op ∈ recorded, op.Valid R) (hf : f ≤ n) (hn : n ≤ recorded.length) (r : ℕ) :
    (store.appended ((recorded.drop f).take r)).Replays R
      (((recorded.take (f + r)).drop n).foldl Op.effect state)
      (start + max n (min (f + r) recorded.length)) := by
  obtain ⟨state₀, hload, hreplay⟩ := Storage.replays_iff.mp h
  refine Storage.replays_iff.mpr ⟨state₀, hload, ?_⟩
  show NumberedLog.replay Op.sequence (applyOp R) (store.journal ++ _) state₀
    store.snapshot.sequence = _
  rw [NumberedLog.replay_append, hreplay]
  exact NumberedLog.replay_retry hnum hf hn (foldlM_applyOp (fun op hop =>
    hvalid op (List.mem_of_mem_take (List.mem_of_mem_drop hop))) state)

/-! ## Snapshots -/

/-- A snapshot that includes all that the storage holds decides what is read,
with the journal still there or cleared. -/
theorem Storage.Replays.compacted {store : Storage} {state state' : State} {n : ℕ}
    {snapshot : Snapshot} (h : store.Replays R state n)
    (hload : ∀ r, loadSnapshot R r snapshot.entries = .ok state') (hn : n ≤ snapshot.sequence) :
    ({ store with snapshot := snapshot } : Storage).Replays R state' snapshot.sequence
      ∧ ({ journal := [], snapshot := snapshot } : Storage).Replays R state' snapshot.sequence := by
  obtain ⟨state₀, _, hreplay⟩ := Storage.replays_iff.mp h
  refine ⟨Storage.replays_iff.mpr ⟨state', hload, ?_⟩, Storage.replays_iff.mpr ⟨state', hload, rfl⟩⟩
  refine NumberedLog.replay_included (fun op hop => ?_)
  obtain ⟨hpos, hle⟩ := (NumberedLog.replay_bound hreplay).2 op hop
  exact ⟨hpos, hle.trans hn⟩

omit [Strconv R] in
/-- The entries a snapshot holds are those visible at the instants it reads. -/
theorem lookup_snapshotEntries (r : RangeOrder GoString) (e : Engine R) (now : GoString → Time)
    (key : GoString) :
    (e.snapshotEntries r now).lookup key
      = (visible (now key) e.state key).map (Entry.toOp key) := by
  unfold Engine.snapshotEntries
  rw [GoMap.lookup_rangeFold r e.state ∅
    (f := fun key entry kept => if expired entry (now key) then kept else some (entry.toOp key))
    (fun s k entry => by
      cases expired entry (now k)
      · exact Finmap.lookup_insert _
      · rfl)
    (fun s k entry k' hne => by
      cases expired entry (now k)
      · exact Finmap.lookup_insert_of_ne _ hne
      · rfl)]
  rw [Finmap.lookup_empty]
  cases hk : e.state.lookup key with
  | none => rw [visible_of_none hk, Option.map_none]
  | some entry =>
    rw [visible_of_lookup hk]
    dsimp only
    cases expired entry (now key) <;> rfl

/-- **What is read back of a snapshot**: the visible entries, each with its
deadline as it was stored. -/
theorem loadSnapshot_snapshotOf {e : Engine R} (hgood : State.Good R e.state)
    (r : RangeOrder GoString) (now : GoString → Time) :
    ∃ state, (∀ r', loadSnapshot R r' (e.snapshotOf r now).entries = .ok state)
      ∧ ∀ key, state.lookup key
          = (visible (now key) e.state key).map (fun entry => (entry.toOp key).toEntry) := by
  have hvalid : ∀ key op, (e.snapshotEntries r now).lookup key = some op →
      op.kind = kindSet ∧ op.key = key ∧ op.Valid R := by
    intro key op hop
    rw [lookup_snapshotEntries, Option.map_eq_some_iff] at hop
    obtain ⟨entry, hvis, rfl⟩ := hop
    have hk := (Expiry.alive_eq_some_iff.mp hvis).1
    exact ⟨rfl, rfl, Or.inl ⟨rfl, (hgood key entry hk).2⟩⟩
  obtain ⟨state, hload, hstate⟩ := loadSnapshot_of_valid RangeOrder.sorted hvalid
  refine ⟨state, fun r' => loadSnapshot_ok_iff.mpr (loadSnapshot_ok_iff.mp hload), fun key => ?_⟩
  rw [hstate, lookup_snapshotEntries, Option.map_map]
  rfl

end WasmRedis
