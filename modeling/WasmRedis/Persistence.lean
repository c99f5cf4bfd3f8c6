import WasmRedis.Engine

/-!
# Persistence

`Flush` hands the buffer to the journal and keeps it if the storage refuses it.
`Snapshot` flushes, writes the unexpired entries under the number of the last
operation, and clears the journal. `Restore` reads the snapshot, replays the
journal over it – passing over what the snapshot includes and what it has
already applied – drops what has expired, and rebuilds the index.

`Snapshot` and `Restore` read the clock once for each entry they test, so their
clock is a function of the key.
-/

namespace WasmRedis

open GoString

/-- The entries of a state. -/
abbrev State := GoMap GoString Entry

/-- The SET a snapshot holds for an entry, under its key in the map. -/
def Entry.toOp (key : GoString) (entry : Entry) : Op :=
  { sequence := 0, kind := kindSet, key := key, value := entry.value,
    isNumber := entry.isNumber, expiresAt := Time.toStored entry.expiresAt }

/-- The entry a stored SET gives. -/
def Op.toEntry (op : Op) : Entry :=
  { key := op.key, value := op.value, isNumber := op.isNumber,
    expiresAt := Time.ofStored op.expiresAt }

section ApplyOp

variable (R : Type) [Strconv R]

/-- `applyOp(state, op)`. -/
def applyOp (state : State) (op : Op) : Except Err State :=
  if op.kind = kindSet then
    if op.isNumber && !Strconv.isFiniteNumber R op.value then
      .error (.new (str "nombre invalide dans le stockage"))
    else .ok (state.insert op.key op.toEntry)
  else if op.kind = kindDelete then .ok (state.erase op.key)
  else .error (.new (str "opération stockée inconnue : " ++ op.kind))

/-- The loop of `Restore` over the entries of the snapshot. -/
def loadSnapshot (r : RangeOrder GoString) (entries : GoMap GoString Op) : Except Err State :=
  GoMap.range r entries ∅ (fun state key op =>
    if op.kind ≠ kindSet ∨ op.key ≠ key then
      .error (.new (str "entrée de snapshot invalide"))
    else applyOp R state op)

/-- The loop of `Restore` over the journal: `base` is the number of the
snapshot, `sequence` that of the last operation applied. -/
def replay (base : ℕ) : List Op → State → ℕ → Except Err (State × ℕ)
  | [], state, sequence => .ok (state, sequence)
  | op :: ops, state, sequence =>
    if op.sequence = 0 then .error (.new (str "séquence du journal invalide"))
    else if op.sequence ≤ base then replay base ops state sequence
    else if op.sequence ≤ sequence then replay base ops state sequence
    else if op.sequence ≠ sequence + 1 then
      .error (.new (str "séquence du journal interrompue"))
    else
      match applyOp R state op with
      | .error err => .error err
      | .ok state => replay base ops state op.sequence

end ApplyOp

/-- The loop of `Restore` that drops what has expired. -/
def dropExpired (r : RangeOrder GoString) (now : GoString → Time) (state : State) : State :=
  GoMap.rangeFold r state state (fun kept key entry =>
    if expired entry (now key) then kept.erase key else kept)

/-- The orders in which `Restore` visits the snapshot, the state it drops the
expired entries of, and the state it indexes. -/
structure RestoreOrders where
  /-- The loop over the snapshot. -/
  snapshot : RangeOrder GoString
  /-- The loop that drops what has expired. -/
  expiry : RangeOrder GoString
  /-- The loop that rebuilds the index. -/
  index : RangeOrder GoString

/-- Increasing orders. -/
def RestoreOrders.sorted : RestoreOrders where
  snapshot := RangeOrder.sorted
  expiry := RangeOrder.sorted
  index := RangeOrder.sorted

/-- Whether the two reads of `Restore` return an error. -/
structure ReadFailures where
  /-- `ReadSnapshot` fails. -/
  snapshot : Bool := false
  /-- `ReadAOF` fails. -/
  aof : Bool := false

variable {R : Type} [LinearOrder R] [Zero R] [Strconv R]

/-- The loop of `Restore` that rebuilds the index. -/
def buildIndex (r : RangeOrder GoString) (degree : ℤ) (state : State) : Except Err (Index R) :=
  GoMap.range r state (Index.new degree) (fun idx key entry =>
    idx.set key entry.value entry.isNumber)

namespace Engine

omit [LinearOrder R] [Zero R] [Strconv R] in
/-- `e.flush()`. -/
def flush (e : Engine R) (reply : Reply ℕ) : Return × Engine R :=
  match e.store with
  | none => (.nil, e)
  | some store =>
    if e.buffer = [] then (.nil, e)
    else
      match store.appendAOF e.buffer reply with
      | (.nil, store) => (.nil, { e with store := some store, buffer := [] })
      | (ended, store) => (ended, { e with store := some store })

omit [LinearOrder R] [Zero R] [Strconv R] in
/-- The entries `Snapshot` writes: those that have not expired. -/
def snapshotEntries (r : RangeOrder GoString) (e : Engine R) (now : GoString → Time) :
    GoMap GoString Op :=
  GoMap.rangeFold r e.state ∅ (fun entries key entry =>
    if expired entry (now key) then entries else entries.insert key (entry.toOp key))

/-- The replies to the storage calls of `Snapshot`. -/
structure SnapshotReplies where
  /-- `AppendAOF`. -/
  append : Reply ℕ := .ok
  /-- `WriteSnapshot`. -/
  write : Reply Bool := .ok
  /-- `ClearAOF`. -/
  clear : Reply Bool := .ok

omit [LinearOrder R] [Zero R] [Strconv R] in
/-- The part of `Snapshot` after the flush. -/
def compact (r : RangeOrder GoString) (e : Engine R) (store : Storage) (now : GoString → Time)
    (write clear : Reply Bool) : Return × Engine R :=
  match store.writeSnapshot { sequence := e.sequence, entries := e.snapshotEntries r now }
      write with
  | (.nil, store) =>
    match store.clearAOF clear with
    | (ended, store) => (ended, { e with store := some store })
  | (ended, store) => (ended, { e with store := some store })

omit [LinearOrder R] [Zero R] [Strconv R] in
/-- `e.Snapshot()`. -/
def snapshot (r : RangeOrder GoString) (e : Engine R) (now : GoString → Time)
    (replies : SnapshotReplies) : Return × Engine R :=
  match e.store with
  | none => (.nil, e)
  | some _ =>
    match e.flush replies.append with
    | (.nil, e) =>
      match e.store with
      | none => (.nil, e)
      | some store => e.compact r store now replies.write replies.clear
    | (ended, e) => (ended, e)

/-- `e.Restore()`. -/
def restore (r : RestoreOrders) (e : Engine R) (now : GoString → Time)
    (fails : ReadFailures) : Option Err × Engine R :=
  match e.store with
  | none => (none, e)
  | some store =>
    if e.running ∨ e.closed ∨ e.buffer.length > 0 then
      (some (.new (str "restauration réservée au démarrage")), e)
    else
      match store.readSnapshot fails.snapshot with
      | .error err => (some (.context (str "snapshot") err), e)
      | .ok snapshot =>
        match store.readAOF fails.aof with
        | .error err => (some (.context (str "journal") err), e)
        | .ok ops =>
          match loadSnapshot R r.snapshot snapshot.entries with
          | .error err => (some err, e)
          | .ok state =>
            match replay R snapshot.sequence ops state snapshot.sequence with
            | .error err => (some err, e)
            | .ok (state, sequence) =>
              let state := dropExpired r.expiry now state
              match buildIndex r.index e.cfg.bTreeOrder state with
              | .error err => (some err, e)
              | .ok index =>
                (none, { e with state := state, sequence := sequence, index := index })

omit [LinearOrder R] [Zero R] [Strconv R] in
/-- `e.Close()`. -/
def close (e : Engine R) (reply : Reply ℕ) : Return × Engine R :=
  if e.closed then (.nil, e)
  else
    match e.flush reply with
    | (.nil, e) => (.nil, { e with closed := true })
    | (ended, e) => (ended, e)

/-- `NewWithStorage(store, cfg)`. -/
def newWithStorage (abs : GoString → Except Err GoString) (store : Option Storage)
    (cfg : Config) (r : RestoreOrders) (now : GoString → Time) (fails : ReadFailures) :
    Except Err (Engine R) :=
  match store with
  | none => .error (.new (str "stockage requis"))
  | some store =>
    match cfg.validate abs with
    | .error err => .error err
    | .ok () =>
      match restore r { (new : Engine R) with store := some store, cfg := cfg } now fails with
      | (some err, _) => .error err
      | (none, e) => .ok e

omit [LinearOrder R] [Zero R] [Strconv R] in
/-- The part of `StartBackground` before its loop. -/
def startBackground (abs : GoString → Except Err GoString) (e : Engine R) :
    Option Err × Engine R :=
  if e.running ∨ e.closed then
    (some (.new (str "moteur fermé ou tâches de fond déjà lancées")), e)
  else
    match e.cfg.validate abs with
    | .error err => (some err, e)
    | .ok () => (none, { e with running := true })

omit [LinearOrder R] [Zero R] [Strconv R] in
/-- What `StartBackground` does when it returns. -/
def stopBackground (e : Engine R) : Engine R := { e with running := false }

end Engine

end WasmRedis
