import WasmRedis.Restoring

/-!
# Restore, on any storage

`WasmRedis.Restoring` says what `Restore` makes of a storage that an engine
has written. Here the storage is arbitrary: a journal in any order, with
operations repeated, missing, of no known kind, over a snapshot of anything.

What is to be applied is `Storage.missing`, the journal's operations above the
number of the snapshot, each at its first occurrence. `Storage.Acceptable` says
when they can be, and `restore_exact` that `Restore` succeeds exactly then, that
it has then applied each of them once, and that it changes nothing otherwise.
-/

namespace WasmRedis

section Accepting

variable (R : Type) [Strconv R]

/-- The operations of the journal that the snapshot does not include, each at
its first occurrence. -/
def Storage.missing (store : Storage) : List Op :=
  NumberedLog.firsts Op.sequence store.snapshot.sequence store.journal

/-- The storage can be restored from. -/
structure Storage.Acceptable (store : Storage) : Prop where
  /-- The entries of the snapshot are SETs of their own keys, with readable
  numbers. -/
  entries : ∀ key op, store.snapshot.entries.lookup key = some op →
    op.kind = kindSet ∧ op.key = key ∧ op.Valid R
  /-- No operation of the journal has the number `0`. -/
  positive : ∀ op ∈ store.journal, op.sequence ≠ 0
  /-- Below a number present, down to the snapshot's, every number is. -/
  contiguous : ∀ op ∈ store.journal, ∀ n, store.snapshot.sequence < n → n ≤ op.sequence →
    ∃ op' ∈ store.journal, op'.sequence = n
  /-- The first occurrences are in increasing order. -/
  increasing : store.missing.Pairwise (fun op op' => op.sequence < op'.sequence)
  /-- They are of a known kind, with readable numbers. -/
  valid : ∀ op ∈ store.missing, op.Valid R

variable {R}

/-- The operations to apply follow each other from the snapshot's number on. -/
theorem Storage.numbered_missing {store : Storage} :
    NumberedLog.Numbered Op.sequence store.snapshot.sequence store.missing ↔
      (∀ op ∈ store.journal, ∀ n, store.snapshot.sequence < n → n ≤ op.sequence →
        ∃ op' ∈ store.journal, op'.sequence = n)
      ∧ store.missing.Pairwise (fun op op' => op.sequence < op'.sequence) := by
  have habove : ∀ op ∈ store.missing, store.snapshot.sequence < op.sequence :=
    fun op => NumberedLog.lt_of_mem_firsts
  rw [NumberedLog.numbered_iff, and_iff_right habove, and_comm]
  refine and_congr_left fun _ => ⟨fun h op hop n hn hle => ?_, fun h op hop n hn hle => ?_⟩
  · obtain ⟨op', hop', heq⟩ :=
      (NumberedLog.exists_mem_firsts (hn.trans_le hle)).mpr ⟨op, hop, rfl⟩
    exact (NumberedLog.exists_mem_firsts hn).mp (h op' hop' n hn (heq ▸ hle))
  · obtain ⟨op', hop', heq⟩ :=
      (NumberedLog.exists_mem_firsts (hn.trans_le hle)).mp ⟨op, hop, rfl⟩
    exact (NumberedLog.exists_mem_firsts hn).mpr (h op' hop' n hn (heq ▸ hle))

theorem foldlM_applyOp_ok_iff {ops : List Op} {state state' : State} :
    ops.foldlM (applyOp R) state = .ok state'
      ↔ (∀ op ∈ ops, op.Valid R) ∧ state' = ops.foldl Op.effect state := by
  induction ops generalizing state with
  | nil =>
    refine ⟨fun h => ?_, fun ⟨_, h⟩ => congrArg _ h.symm⟩
    cases h
    exact ⟨fun _ hop => absurd hop List.not_mem_nil, rfl⟩
  | cons op ops ih =>
    rw [List.foldlM_cons, List.forall_mem_cons, List.foldl_cons]
    cases hop : applyOp R state op with
    | error err =>
      refine ⟨nofun, fun ⟨⟨hv, _⟩, _⟩ => ?_⟩
      rw [hv.applyOp] at hop
      cases hop
    | ok state₁ =>
      obtain ⟨hv, rfl⟩ := applyOp_ok_iff.mp hop
      rw [and_iff_right hv]
      exact ih

/-- **Acceptable storages hold a state**, and no others do. -/
theorem Storage.acceptable_iff {store : Storage} :
    store.Acceptable R ↔ ∃ state sequence, store.Replays R state sequence := by
  constructor
  · intro h
    obtain ⟨entries, hload, _⟩ := loadSnapshot_of_valid RangeOrder.sorted h.entries
    have hreplay := NumberedLog.replay_ok_iff.mpr ⟨h.positive,
      numbered_missing.mpr ⟨h.contiguous, h.increasing⟩, foldlM_applyOp h.valid entries, rfl⟩
    exact ⟨_, _, replays_iff.mpr
      ⟨entries, fun r => loadSnapshot_ok_iff.mpr (loadSnapshot_ok_iff.mp hload), hreplay⟩⟩
  · rintro ⟨state, sequence, h⟩
    obtain ⟨entries, hload, hreplay⟩ := replays_iff.mp h
    obtain ⟨hpos, hnum, happly, _⟩ := NumberedLog.replay_ok_iff.mp hreplay
    obtain ⟨hcont, hincr⟩ := numbered_missing.mp hnum
    exact ⟨(loadSnapshot_ok_iff.mp (hload RangeOrder.sorted)).1, hpos, hcont, hincr,
      (foldlM_applyOp_ok_iff.mp happly).1⟩

/-- The number restored is the snapshot's, or that of an operation of the
journal. -/
theorem Storage.Replays.sequence_eq {store : Storage} {state : State} {sequence : ℕ}
    (h : store.Replays R state sequence) :
    sequence = store.snapshot.sequence ∨ ∃ op ∈ store.journal, op.sequence = sequence := by
  obtain ⟨entries, _, hreplay⟩ := replays_iff.mp h
  obtain ⟨_, hnum, _, hsequence⟩ := NumberedLog.replay_ok_iff.mp hreplay
  have hle : store.snapshot.sequence ≤ sequence := hsequence ▸ Nat.le_add_right _ _
  obtain heq | hlt := hle.eq_or_lt
  · exact Or.inl heq.symm
  · refine Or.inr ((NumberedLog.exists_mem_firsts hlt).mp ?_)
    exact (NumberedLog.exists_mem_of_numbered hnum hlt).mpr hsequence.le

end Accepting

variable {R : Type} [LinearOrder R] [Zero R] [Strconv R]

namespace Engine

/-- `Restore` is called at startup and both reads succeed, on an acceptable
storage. -/
structure Restorable (e : Engine R) (store : Storage) (fails : ReadFailures) : Prop where
  /-- No background loop is running. -/
  running : e.running = false
  /-- The engine is open. -/
  closed : e.closed = false
  /-- Nothing is waiting to be flushed. -/
  buffer : e.buffer = []
  /-- `ReadSnapshot` succeeds. -/
  readSnapshot : fails.snapshot = false
  /-- `ReadAOF` succeeds. -/
  readAOF : fails.aof = false
  /-- What they return can be restored from. -/
  store : store.Acceptable R

/-- The engine `e'` is the engine `e` with every missing write of the storage
applied exactly once. -/
structure Rebuilt (e : Engine R) (store : Storage) (now : GoString → Time) (e' : Engine R) :
    Prop where
  /-- No operation of the journal has the number `0`. -/
  positive : ∀ op ∈ store.journal, op.sequence ≠ 0
  /-- The number restored is not below the snapshot's. -/
  base : store.snapshot.sequence ≤ e'.sequence
  /-- The journal's numbers above the snapshot's are those up to the number
  restored. -/
  numbers : ∀ n, store.snapshot.sequence < n →
    ((∃ op ∈ store.journal, op.sequence = n) ↔ n ≤ e'.sequence)
  /-- Their first occurrences are in increasing order. -/
  increasing : store.missing.Pairwise (fun op op' => op.sequence < op'.sequence)
  /-- The state is the fold of the first occurrences over the entries of the
  snapshot, minus what has expired. -/
  state : ∃ entries state : State,
    (∀ key, entries.lookup key = (store.snapshot.entries.lookup key).map Op.toEntry)
      ∧ store.missing.foldlM (applyOp R) entries = .ok state
      ∧ ∀ key, e'.state.lookup key = visible (now key) state key
  /-- The index holds exactly the entries of the state. -/
  index : e'.index.Mirrors e'.state
  /-- Nothing else has changed. -/
  frame : e' = { e with state := e'.state, sequence := e'.sequence, index := e'.index }

/-- An engine restored from what a storage holds is rebuilt. -/
theorem rebuilt_restored {e : Engine R} {store : Storage} {state : State} {sequence : ℕ}
    (r : RestoreOrders) (now : GoString → Time) {index : Index R}
    (h : store.Replays R state sequence)
    (hidx : index.Mirrors (dropExpired r.expiry now state)) :
    e.Rebuilt store now (e.restored r now state sequence index) := by
  obtain ⟨entries, hload, hreplay⟩ := Storage.replays_iff.mp h
  obtain ⟨hpos, hnum, happly, hseq⟩ := NumberedLog.replay_ok_iff.mp hreplay
  refine ⟨hpos, hseq ▸ Nat.le_add_right _ _, fun n hn => ?_,
    (Storage.numbered_missing.mp hnum).2, ?_, hidx, rfl⟩
  · show _ ↔ n ≤ sequence
    rw [hseq, ← NumberedLog.exists_mem_firsts hn, NumberedLog.exists_mem_of_numbered hnum hn]
  · exact ⟨entries, state, (loadSnapshot_ok_iff.mp (hload RangeOrder.sorted)).2, happly,
      lookup_dropExpired r.expiry now state⟩

/-- **Restore applies every missing write exactly once, or refuses**: it
succeeds exactly on what is restorable, and an engine it refuses to restore is
left as it was. -/
theorem restore_exact {e : Engine R} {store : Storage} (hstore : e.store = some store)
    (r : RestoreOrders) (now : GoString → Time) (fails : ReadFailures) :
    (e.Restorable store fails
        ∧ ∃ e', e.restore r now fails = (none, e') ∧ e.Rebuilt store now e')
      ∨ (¬ e.Restorable store fails ∧ ∃ err, e.restore r now fails = (some err, e)) := by
  by_cases hable : e.Restorable store fails
  · obtain ⟨state, sequence, h⟩ := Storage.acceptable_iff.mp hable.store
    obtain ⟨index, hrestore, hidx⟩ :=
      restore_of_replays r now hstore hable.running hable.closed hable.buffer h
    have hfails : fails = {} := by
      obtain ⟨hs, ha⟩ := And.intro hable.readSnapshot hable.readAOF
      cases fails
      subst hs ha
      rfl
    subst hfails
    exact Or.inl ⟨hable, _, hrestore, rebuilt_restored r now h hidx⟩
  · refine Or.inr ⟨hable, (restore_refuses_or hstore r now fails).resolve_right ?_⟩
    rintro ⟨hrun, hcl, hbuf, rfl, hreplays⟩
    exact hable ⟨hrun, hcl, hbuf, rfl, rfl, Storage.acceptable_iff.mpr hreplays⟩

/-- A storage left by a compaction that stopped before it cleared the journal,
and by a batch appended twice since. -/
def interrupted : Storage :=
  let set (n : ℕ) (key : GoString) : Op :=
    { sequence := n, kind := kindSet, key := key, value := GoString.str "v", isNumber := false,
      expiresAt := 0 }
  { journal := [set 1 [97], set 2 [98], set 3 [99], set 2 [98], set 3 [99], set 4 [97]],
    snapshot := { sequence := 1, entries := Finmap.insert [97] (set 0 [97]) ∅ } }

theorem restore_exact_interrupted :
    let e : Engine ℕ := { (new : Engine ℕ) with store := some interrupted }
    ∃ e', e.restore RestoreOrders.sorted (fun _ => 0) {} = (none, e')
      ∧ e.Rebuilt interrupted (fun _ => 0) e' := by
  intro e
  obtain ⟨_, h⟩ | ⟨_, err, h⟩ :=
    restore_exact (show e.store = some interrupted from rfl) RestoreOrders.sorted (fun _ => 0) {}
  · exact h
  · have hok : (e.restore RestoreOrders.sorted (fun _ => 0) {}).1 = none := by decide
    rw [h] at hok
    cases hok

end Engine

end WasmRedis
