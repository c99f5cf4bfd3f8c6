import WasmRedis.Changes

/-!
# What the storage calls can do

`Flush`, `Snapshot` and `Close` leave the entries as they are: they move the
buffer to the journal and the entries to the snapshot. What is left in the
storage when a call does not return nil is said here for each of the three, in
one equation with the environment's choices as witnesses.
-/

namespace WasmRedis

open GoString

/-- The storage with operations appended to its journal. -/
def Storage.appended (store : Storage) (ops : List Op) : Storage :=
  { store with journal := store.journal ++ ops }

namespace Engine

variable {R : Type}

/-- The engine `e'` differs from `e` in nothing but the storage and the buffer. -/
def OnlyStorage (e e' : Engine R) : Prop :=
  ∃ store buffer, e' = { e with store := store, buffer := buffer }

/-! ## Flush -/

theorem flush_of_none {e : Engine R} (h : e.store = none) (reply : Reply ℕ) :
    e.flush reply = (.nil, e) := by
  unfold flush
  rw [h]

theorem flush_of_empty {e : Engine R} (h : e.buffer = []) (reply : Reply ℕ) :
    e.flush reply = (.nil, e) := by
  unfold flush
  cases e.store with
  | none => rfl
  | some store =>
    dsimp only
    rw [if_pos h]

/-- **What `flush` can do**: some prefix of the buffer reaches the journal, and
if it returns nil the whole buffer has. -/
theorem flush_cases {e : Engine R} {store : Storage} (h : e.store = some store)
    (reply : Reply ℕ) : ∃ ended reached, (ended = .nil → reached = e.buffer.length) ∧
      e.flush reply = (ended, { e with
        store := some (store.appended (e.buffer.take reached)),
        buffer := if ended = .nil then [] else e.buffer }) := by
  by_cases hbuf : e.buffer = []
  · refine ⟨.nil, e.buffer.length, fun _ => rfl, ?_⟩
    rw [flush_of_empty hbuf]
    obtain ⟨state, _, cfg, _, sequence, closed, running, index⟩ := e
    cases h
    cases hbuf
    rw [Storage.appended, List.take_nil, List.append_nil]
    rfl
  · unfold flush
    rw [h]
    dsimp only
    rw [if_neg hbuf]
    cases reply with
    | ok =>
      refine ⟨.nil, e.buffer.length, fun _ => rfl, ?_⟩
      rw [List.take_length]
      rfl
    | fail reached => exact ⟨.err Storage.failure, reached, nofun, rfl⟩
    | stop reached => exact ⟨.stopped, reached, nofun, rfl⟩

/-- A flush over a storage that does not fail. -/
theorem flush_ok {e : Engine R} {store : Storage} (h : e.store = some store) :
    e.flush .ok
      = (.nil, { e with store := some (store.appended e.buffer), buffer := [] }) := by
  obtain ⟨ended, reached, hnil, heq⟩ := flush_cases h .ok
  have hended : ended = .nil := by
    have hfst : (e.flush .ok).1 = .nil := by
      unfold flush
      rw [h]
      dsimp only
      split_ifs <;> rfl
    rwa [heq] at hfst
  rw [heq, hended, hnil hended, List.take_length, if_pos rfl]

theorem flush_only (e : Engine R) (reply : Reply ℕ) : OnlyStorage e (e.flush reply).2 := by
  cases h : e.store with
  | none =>
    rw [flush_of_none h]
    exact ⟨e.store, e.buffer, rfl⟩
  | some store =>
    obtain ⟨ended, reached, _, heq⟩ := flush_cases h reply
    rw [heq]
    exact ⟨_, _, rfl⟩

/-! ## Snapshot -/

/-- The snapshot `Snapshot` writes. -/
def snapshotOf (r : RangeOrder GoString) (e : Engine R) (now : GoString → Time) : Snapshot :=
  { sequence := e.sequence, entries := e.snapshotEntries r now }

theorem snapshot_of_none {e : Engine R} (h : e.store = none) (r : RangeOrder GoString)
    (now : GoString → Time) (replies : SnapshotReplies) :
    e.snapshot r now replies = (.nil, e) := by
  unfold snapshot
  rw [h]

/-- **What the second part of `Snapshot` can do**: nothing, or write the
snapshot, or write it and clear the journal; and both if it returns nil. -/
theorem compact_cases (r : RangeOrder GoString) (e : Engine R) (store : Storage)
    (now : GoString → Time) (write clear : Reply Bool) :
    ∃ ended store', e.compact r store now write clear = (ended, { e with store := some store' }) ∧
      (ended ≠ .nil ∧ store' = store
        ∨ ended ≠ .nil ∧ store' = { store with snapshot := e.snapshotOf r now }
        ∨ store' = { journal := [], snapshot := e.snapshotOf r now }) := by
  unfold compact
  cases write with
  | ok =>
    cases clear with
    | ok => exact ⟨.nil, _, rfl, Or.inr (Or.inr rfl)⟩
    | fail cleared =>
      cases cleared with
      | false => exact ⟨.err _, _, rfl, Or.inr (Or.inl ⟨nofun, rfl⟩)⟩
      | true => exact ⟨.err _, _, rfl, Or.inr (Or.inr rfl)⟩
    | stop cleared =>
      cases cleared with
      | false => exact ⟨.stopped, _, rfl, Or.inr (Or.inl ⟨nofun, rfl⟩)⟩
      | true => exact ⟨.stopped, _, rfl, Or.inr (Or.inr rfl)⟩
  | fail written =>
    cases written with
    | false => exact ⟨.err _, _, rfl, Or.inl ⟨nofun, rfl⟩⟩
    | true => exact ⟨.err _, _, rfl, Or.inr (Or.inl ⟨nofun, rfl⟩)⟩
  | stop written =>
    cases written with
    | false => exact ⟨.stopped, _, rfl, Or.inl ⟨nofun, rfl⟩⟩
    | true => exact ⟨.stopped, _, rfl, Or.inr (Or.inl ⟨nofun, rfl⟩)⟩

/-- `Snapshot` is a flush, and the second part where the flush returned nil. -/
theorem snapshot_cases {e : Engine R} {store : Storage} (h : e.store = some store)
    (r : RangeOrder GoString) (now : GoString → Time) (replies : SnapshotReplies) :
    ((e.flush replies.append).1 ≠ .nil ∧ e.snapshot r now replies = e.flush replies.append)
      ∨ ∃ store', (e.flush replies.append).1 = .nil
        ∧ (e.flush replies.append).2.store = some store'
        ∧ e.snapshot r now replies
          = (e.flush replies.append).2.compact r store' now replies.write replies.clear := by
  obtain ⟨ended, reached, _, heq⟩ := flush_cases h replies.append
  unfold snapshot
  rw [h, heq]
  cases ended with
  | nil => exact Or.inr ⟨_, rfl, rfl, rfl⟩
  | err e => exact Or.inl ⟨nofun, rfl⟩
  | stopped => exact Or.inl ⟨nofun, rfl⟩

/-- A snapshot over a storage that does not fail. -/
theorem snapshot_ok {e : Engine R} {store : Storage} (h : e.store = some store)
    (r : RangeOrder GoString) (now : GoString → Time) :
    e.snapshot r now {}
      = (.nil, { e with store := some { journal := [], snapshot := e.snapshotOf r now },
                        buffer := [] }) := by
  obtain ⟨hne, _⟩ | ⟨store', _, _, heq⟩ := snapshot_cases h r now {}
  · exact absurd (by rw [flush_ok h]) hne
  · rw [heq, flush_ok h]
    rfl

theorem snapshot_only (r : RangeOrder GoString) (e : Engine R) (now : GoString → Time)
    (replies : SnapshotReplies) : OnlyStorage e (e.snapshot r now replies).2 := by
  cases h : e.store with
  | none =>
    rw [snapshot_of_none h]
    exact ⟨e.store, e.buffer, rfl⟩
  | some store =>
    obtain ⟨store₁, buffer, hflush⟩ := flush_only e replies.append
    rcases snapshot_cases h r now replies with ⟨_, heq⟩ | ⟨store', _, _, heq⟩
    · rw [heq]
      exact ⟨store₁, buffer, hflush⟩
    · obtain ⟨ended, store'', hcompact, _⟩ :=
        compact_cases r (e.flush replies.append).2 store' now replies.write replies.clear
      rw [heq, hcompact, hflush]
      exact ⟨_, _, rfl⟩

/-! ## Close -/

/-- `Close` is a flush on an engine that is not closed. -/
theorem close_cases (e : Engine R) (reply : Reply ℕ) :
    e.closed = true ∧ e.close reply = (.nil, e)
      ∨ e.closed = false ∧ (e.flush reply).1 ≠ .nil ∧ e.close reply = e.flush reply
      ∨ e.closed = false ∧ (e.flush reply).1 = .nil
        ∧ e.close reply = (.nil, { (e.flush reply).2 with closed := true }) := by
  unfold close
  cases hcl : e.closed with
  | true => exact Or.inl ⟨rfl, rfl⟩
  | false =>
    refine Or.inr ?_
    rcases e.flush reply with ⟨ended, e'⟩
    cases ended with
    | nil => exact Or.inr ⟨rfl, rfl, rfl⟩
    | err err => exact Or.inl ⟨rfl, nofun, rfl⟩
    | stopped => exact Or.inl ⟨rfl, nofun, rfl⟩

/-- `Close` changes nothing but the storage, the buffer and the closed flag. -/
theorem close_only (e : Engine R) (reply : Reply ℕ) : ∃ e', OnlyStorage e e'
    ∧ ((e.close reply).2 = e' ∨ (e.close reply).2 = { e' with closed := true }) := by
  obtain ⟨_, heq⟩ | ⟨_, _, heq⟩ | ⟨_, _, heq⟩ := close_cases e reply
  · exact ⟨e, ⟨e.store, e.buffer, rfl⟩, Or.inl (by rw [heq])⟩
  · exact ⟨_, flush_only e reply, Or.inl (by rw [heq])⟩
  · exact ⟨_, flush_only e reply, Or.inr (by rw [heq])⟩

end Engine

end WasmRedis
