import WasmRedis.Compaction
import WasmRedis.Crashes

/-!
# The engine over its files

The operations of the engine that reach the storage, with the two files in its
place: `NewWithStorage` reads them, `Flush` appends to the journal, `Snapshot`
writes the one and clears the other. The field `store` of the engine says no
more here than that there is a storage; what it holds is on the disk.

The files *hold* a storage if they are read as it (`FileStorage.Holds`). As long
as every text is valid UTF-8 and the calls return nil, the engine over files
does what the engine over that storage does (`flushFiles_withStore`,
`snapshotFiles_withStore`).
-/

namespace WasmRedis

open GoString Lines

/-- `fmt.Errorf("what : %w", err)` on the error of a call. -/
def Return.context (what : GoString) : Return → Return
  | .err e => .err (.context what e)
  | ended => ended

namespace Engine

variable {R : Type}

section

variable [EncodingJSON]

/-- `NewWithStorage(s, cfg)`: the settings are validated, then `Restore` reads
the two files. -/
def openFiles [LinearOrder R] [Zero R] [Strconv R] (abs : GoString → Except Err GoString)
    (s : FileStorage) (disk : Disk) (cfg : Config) (r : RestoreOrders) (now : GoString → Time)
    (read : Reply Unit) (replies : ReadReplies) : Except Return (Engine R) × Disk :=
  match cfg.validate abs with
  | .error err => (.error (.err err), disk)
  | .ok () =>
    match s.readSnapshot disk read with
    | .error ended => (.error (ended.context (str "snapshot")), disk)
    | .ok snapshot =>
      match s.readAOF disk replies with
      | (.error ended, disk) => (.error (ended.context (str "journal")), disk)
      | (.ok ops, disk) =>
        match newWithStorage abs (some { journal := ops, snapshot := snapshot }) cfg r now {} with
        | .error err => (.error (.err err), disk)
        | .ok e => (.ok e, disk)

/-- `e.flush()`. -/
def flushFiles (s : FileStorage) (e : Engine R) (disk : Disk) (replies : AppendReplies) :
    Return × Engine R × Disk :=
  match e.store with
  | none => (.nil, e, disk)
  | some _ =>
    if e.buffer = [] then (.nil, e, disk)
    else
      match s.appendAOF disk e.buffer replies with
      | (.nil, disk) => (.nil, { e with buffer := [] }, disk)
      | (ended, disk) => (ended, e, disk)

/-- The part of `Snapshot` after the flush. -/
def compactFiles (s : FileStorage) (r : RangeOrder GoString) (e : Engine R) (disk : Disk)
    (now : GoString → Time) (write clear : AtomicReplies) : Return × Disk :=
  Return.andThen (s.writeSnapshot disk (e.snapshotOf r now) write) (s.clearAOF · clear)

/-- `e.Snapshot()`. -/
def snapshotFiles (s : FileStorage) (r : RangeOrder GoString) (e : Engine R) (disk : Disk)
    (now : GoString → Time) (append : AppendReplies) (write clear : AtomicReplies) :
    Return × Engine R × Disk :=
  match e.store with
  | none => (.nil, e, disk)
  | some _ =>
    match e.flushFiles s disk append with
    | (.nil, e, disk) =>
      let ended := e.compactFiles s r disk now write clear
      (ended.1, e, ended.2)
    | ended => ended

end

/-- The engine over a storage that holds this. -/
def withStore (e : Engine R) (store : Storage) : Engine R := { e with store := some store }

theorem withStore_record {e : Engine R} (h : e.store ≠ none) (store : Storage) (kind : GoString)
    (entry : Entry) :
    (e.withStore store).record kind entry = (e.record kind entry).withStore store := by
  obtain ⟨st, hst⟩ := Option.ne_none_iff_exists'.mp h
  unfold record withStore
  rw [hst]

end Engine

/-- The name `os.CreateTemp` chooses is that of neither file. -/
structure AtomicReplies.Fresh (replies : AtomicReplies) (s : FileStorage) : Prop where
  /-- It is not the journal's. -/
  aof : replies.temp ≠ s.aofPath
  /-- It is not the snapshot's. -/
  snapshot : replies.temp ≠ s.snapshotPath

namespace FileStorage

variable [EncodingJSON]

/-! ## What the files hold -/

/-- **The files hold the storage**: they are read as it, and the journal has no
torn line. -/
structure Holds (s : FileStorage) (disk : Disk) (store : Storage) : Prop where
  /-- The journal. -/
  journal : WellFormed (disk.contents s.aofPath) store.journal
  /-- The snapshot. -/
  snapshot : s.readSnapshot disk .ok = .ok store.snapshot

variable {s : FileStorage} {disk : Disk} {store : Storage}

/-- What is read as the snapshot depends on its file only. -/
theorem readSnapshot_congr {disk' : Disk}
    (h : disk'.lookup s.snapshotPath = disk.lookup s.snapshotPath) :
    s.readSnapshot disk' .ok = s.readSnapshot disk .ok := by
  unfold readSnapshot
  simp only [Reply.pass, Reply.run, h]

/-- Lines added to a well-formed journal. -/
theorem WellFormed.append_lines {content : GoString} {ops new : List Op}
    (h : WellFormed content ops) {lines : List (Line newline)}
    (hlines : List.Forall₂ Writes new lines) :
    WellFormed (content ++ join lines) (ops ++ new) := by
  obtain ⟨old, rfl, hread⟩ := h.exists_lines
  rw [← join_append]
  refine wellFormed_join ?_
  rw [List.map_append, decode_append, hread]
  show (decode _ (lines.map (·.text))).map _ = _
  rw [decode_lines hlines]
  rfl

/-- **An `AppendAOF` that returns nil** adds its operations to what the files
hold. -/
theorem Holds.appendAOF [EncodingJSON.Lawful] (h : s.Holds disk store)
    (hpaths : s.aofPath ≠ s.snapshotPath) {ops : List Op} (hops : ∀ op ∈ ops, op.Encodable)
    {replies : AppendReplies} (hnil : (s.appendAOF disk ops replies).1 = .nil) :
    s.Holds (s.appendAOF disk ops replies).2 (store.appended ops) := by
  obtain ⟨lines, hlines⟩ := exists_lines hops
  obtain ⟨k, _, hcontents, hall, honly⟩ := s.appendAOF_contents disk hlines replies
  rw [hall hnil, List.take_length] at hcontents
  refine ⟨?_, ?_⟩
  · rw [hcontents]
    exact h.journal.append_lines hlines
  · exact (readSnapshot_congr (honly s.snapshotPath hpaths.symm)).trans h.snapshot

/-- **A `WriteSnapshot` that returns nil** replaces the snapshot the files hold. -/
theorem Holds.writeSnapshot [EncodingJSON.Coercing] (h : s.Holds disk store)
    (hpaths : s.aofPath ≠ s.snapshotPath) {snapshot : Snapshot}
    (hsequence : snapshot.sequence < 2 ^ 64)
    (hentries : ∀ key op, snapshot.entries.lookup key = some op → IsUTF8 key ∧ op.Encodable)
    {replies : AtomicReplies} (hfresh : replies.Fresh s)
    (hnil : (s.writeSnapshot disk snapshot replies).1 = .nil) :
    s.Holds (s.writeSnapshot disk snapshot replies).2 { store with snapshot := snapshot } := by
  obtain ⟨data, read, hdata, hunmarshal, hreads⟩ := EncodingJSON.Coercing.marshalSnapshot_coerced
    hsequence (fun key op hop => (hentries key op hop).2.sequence)
  have hread := hreads.eq hentries
  subst hread
  unfold FileStorage.writeSnapshot at hnil ⊢
  rw [hdata] at hnil ⊢
  have hspec := writeAtomic_spec s.snapshotPath data disk hfresh.snapshot
  refine ⟨?_, ?_⟩
  · unfold Disk.contents
    rw [hspec.others s.aofPath hpaths hfresh.aof.symm]
    exact h.journal
  · unfold readSnapshot
    simp only [Reply.pass, Reply.run, hspec.nil hnil, hunmarshal]

/-- **A `ClearAOF` that returns nil** empties the journal the files hold. -/
theorem Holds.clearAOF (h : s.Holds disk store) (hpaths : s.aofPath ≠ s.snapshotPath)
    {replies : AtomicReplies} (hfresh : replies.Fresh s)
    (hnil : (s.clearAOF disk replies).1 = .nil) :
    s.Holds (s.clearAOF disk replies).2 { store with journal := [] } := by
  have hspec := writeAtomic_spec s.aofPath [] disk hfresh.aof
  refine ⟨?_, ?_⟩
  · unfold Disk.contents
    rw [show (s.clearAOF disk replies).2.lookup s.aofPath = some [] from hspec.nil hnil]
    exact wellFormed_nil
  · exact (readSnapshot_congr (hspec.others s.snapshotPath hpaths.symm hfresh.snapshot.symm)).trans
      h.snapshot

end FileStorage

/-! ## Opening -/

/-- What the storage has can be encoded. -/
structure Storage.Encodable (store : Storage) : Prop where
  /-- The operations of the journal. -/
  journal : ∀ op ∈ store.journal, op.Encodable
  /-- The number of the snapshot. -/
  sequence : store.snapshot.sequence < 2 ^ 64
  /-- The entries of the snapshot. -/
  entries : ∀ key op, store.snapshot.entries.lookup key = some op → IsUTF8 key ∧ op.Encodable

theorem Storage.Encodable.has {store : Storage} (h : store.Encodable) {op : Op}
    (hop : store.Has op) : op.Encodable := by
  obtain hop | ⟨key, hop⟩ := hop
  · exact h.journal op hop
  · exact (h.entries key op hop).2

/-- The texts of the entries are valid UTF-8. -/
def State.Encodable (state : State) : Prop :=
  ∀ key entry, state.lookup key = some entry → IsUTF8 key ∧ IsUTF8 entry.value

variable [EncodingJSON]

namespace FileStorage

variable {s : FileStorage} {disk disk' : Disk}

theorem encodable_of_decode [EncodingJSON.Coercing] {lines : List GoString} {i : ℕ}
    {ops : List Op} (h : decode i lines = .ok ops) : ∀ op ∈ ops, op.Encodable := by
  induction lines generalizing i ops with
  | nil =>
    cases h
    exact fun _ hop => absurd hop List.not_mem_nil
  | cons line lines ih =>
    unfold decode at h
    split_ifs at h
    · exact ih h
    · cases hop : EncodingJSON.unmarshalOp line with
      | error err =>
        rw [hop] at h
        cases h
      | ok op =>
        rw [hop] at h
        dsimp only at h
        cases hrest : decode (i + 1) lines with
        | error err =>
          rw [hrest] at h
          cases h
        | ok rest =>
          rw [hrest] at h
          cases h
          exact List.forall_mem_cons.mpr
            ⟨EncodingJSON.Coercing.encodable_of_unmarshalOp hop, ih hrest⟩

/-- What a `ReadAOF` returns is what the journal then holds. -/
theorem wellFormed_of_readAOF {ops : List Op} (h : s.readAOF disk {} = (.ok ops, disk')) :
    WellFormed (disk'.contents s.aofPath) ops ∧ (∃ lines, decode 0 lines = .ok ops)
      ∧ Disk.Only s.aofPath disk disk' := by
  obtain ⟨lines, tail, hcontents⟩ : ∃ (lines : List (Line newline)) (tail : Line newline),
      disk.contents s.aofPath = join lines ++ tail.text := exists_join _
  cases hread : decode 0 (lines.map (·.text)) with
  | error err =>
    rw [s.readAOF_error hcontents hread] at h
    cases h
  | ok ops' =>
    obtain ⟨disk'', hspec, hleft, honly⟩ := s.readAOF_spec hcontents hread
    rw [hspec] at h
    cases h
    exact ⟨hleft ▸ wellFormed_join hread, ⟨_, hread⟩, honly⟩

theorem encodable_of_readSnapshot [EncodingJSON.Coercing] {snapshot : Snapshot}
    (h : s.readSnapshot disk .ok = .ok snapshot) : snapshot.sequence < 2 ^ 64
      ∧ ∀ key op, snapshot.entries.lookup key = some op → IsUTF8 key ∧ op.Encodable := by
  unfold readSnapshot at h
  simp only [Reply.pass, Reply.run] at h
  cases hdata : disk.lookup s.snapshotPath with
  | none =>
    rw [hdata] at h
    cases h
    refine ⟨Nat.two_pow_pos 64, fun key op hop => ?_⟩
    rw [Finmap.lookup_empty] at hop
    cases hop
  | some data =>
    rw [hdata] at h
    dsimp only at h
    cases hread : EncodingJSON.unmarshalSnapshot data with
    | error err =>
      rw [hread] at h
      cases h
    | ok read =>
      obtain ⟨sequence, entries⟩ := read
      rw [hread] at h
      cases entries with
      | none => cases h
      | some entries =>
        cases h
        exact EncodingJSON.Coercing.encodable_of_unmarshalSnapshot hread

end FileStorage

namespace Engine

variable {R : Type} [LinearOrder R] [Zero R] [Strconv R] {s : FileStorage} {disk disk' : Disk}
  {abs : GoString → Except Err GoString} {cfg : Config} {r : RestoreOrders}
  {now : GoString → Time} {e : Engine R}

/-- What an `openFiles` that succeeded has read. -/
theorem openFiles_reads (h : openFiles abs s disk cfg r now .ok {} = (.ok e, disk')) :
    ∃ snapshot ops, s.readSnapshot disk .ok = .ok snapshot ∧ s.readAOF disk {} = (.ok ops, disk')
      ∧ newWithStorage abs (some { journal := ops, snapshot := snapshot }) cfg r now {}
        = .ok e := by
  unfold openFiles at h
  cases hcfg : cfg.validate abs with
  | error err =>
    rw [hcfg] at h
    exact nomatch h
  | ok u =>
    rw [hcfg] at h
    dsimp only at h
    cases hsnapshot : s.readSnapshot disk .ok with
    | error ended =>
      rw [hsnapshot] at h
      exact nomatch h
    | ok snapshot =>
      rw [hsnapshot] at h
      dsimp only at h
      cases hjournal : s.readAOF disk {} with
      | mk read disk₁ =>
        rw [hjournal] at h
        cases read with
        | error ended => exact nomatch h
        | ok ops =>
          dsimp only at h
          cases hnew : newWithStorage (R := R) abs (some { journal := ops, snapshot := snapshot })
              cfg r now {} with
          | error err =>
            rw [hnew] at h
            exact nomatch h
          | ok e' =>
            rw [hnew] at h
            cases h
            exact ⟨snapshot, ops, rfl, rfl, hnew⟩

/-- **What has been opened**: the engine over the storage that the files then
hold, every text of which is valid UTF-8. -/
theorem openFiles_ok [EncodingJSON.Coercing] (hpaths : s.aofPath ≠ s.snapshotPath)
    (h : openFiles abs s disk cfg r now .ok {} = (.ok e, disk')) :
    ∃ store, s.Holds disk' store ∧ store.Encodable
      ∧ newWithStorage abs (some store) cfg r now {} = .ok e := by
  obtain ⟨snapshot, ops, hsnapshot, hjournal, hnew⟩ := openFiles_reads h
  obtain ⟨hwf, ⟨lines, hread⟩, honly⟩ := FileStorage.wellFormed_of_readAOF hjournal
  obtain ⟨hsequence, hentries⟩ := FileStorage.encodable_of_readSnapshot hsnapshot
  have hsame := FileStorage.readSnapshot_congr (honly s.snapshotPath hpaths.symm)
  exact ⟨_, ⟨hwf, hsame.trans hsnapshot⟩,
    ⟨FileStorage.encodable_of_decode hread, hsequence, hentries⟩, hnew⟩

/-- **Opening files** opens the storage they hold. -/
theorem openFiles_of_holds {store : Storage} (h : s.Holds disk store)
    (hnew : newWithStorage abs (some store) cfg r now {} = .ok e) :
    ∃ disk', openFiles abs s disk cfg r now .ok {} = (.ok e, disk') := by
  obtain ⟨_, _, hcfg, _⟩ := newWithStorage_ok hnew
  obtain ⟨lines, hcontents, hread⟩ := h.journal.exists_lines
  have hjoin : disk.contents s.aofPath = join lines ++ (blank : Line newline).text :=
    hcontents.trans (List.append_nil _).symm
  obtain ⟨disk', hjournal, _⟩ := s.readAOF_spec hjoin hread
  refine ⟨disk', ?_⟩
  unfold openFiles
  rw [hcfg]
  dsimp only
  rw [h.snapshot]
  dsimp only
  rw [hjournal]
  dsimp only
  rw [hnew]

omit [EncodingJSON] in
/-- What is opened has texts of valid UTF-8 only. -/
theorem encodable_of_newWithStorage {store : Storage} (h : store.Encodable)
    (hnew : newWithStorage abs (some store) cfg r now {} = .ok e) : State.Encodable e.state := by
  obtain ⟨_, state, sequence, index, hreplays, _, rfl⟩ := newWithStorage_restored hnew
  have hall : State.Encodable state :=
    hreplays.all (P := fun key entry => IsUTF8 key ∧ IsUTF8 entry.value)
      (fun op hop _ _ => ⟨(h.has hop).key, (h.has hop).value⟩)
  exact fun key entry hk => hall key entry (lookup_of_dropExpired hk)

/-! ## Flushing and compacting -/

omit [LinearOrder R] [Zero R] [Strconv R] in
theorem flushFiles_eq (hstore : e.store ≠ none) (replies : AppendReplies) :
    e.flushFiles s disk replies
      = if e.buffer = [] then (.nil, e, disk)
        else
          match s.appendAOF disk e.buffer replies with
          | (.nil, disk) => (.nil, { e with buffer := [] }, disk)
          | (ended, disk) => (ended, e, disk) := by
  unfold flushFiles
  cases hst : e.store with
  | none => exact absurd hst hstore
  | some st => rfl

omit [LinearOrder R] [Zero R] [Strconv R] in
/-- **A `Flush` over files that returns nil** is the flush over the storage they
hold. -/
theorem flushFiles_withStore [EncodingJSON.Lawful] {store : Storage} (h : s.Holds disk store)
    (hpaths : s.aofPath ≠ s.snapshotPath) (hstore : e.store ≠ none)
    (hbuffer : ∀ op ∈ e.buffer, op.Encodable) {replies : AppendReplies}
    (hnil : (e.flushFiles s disk replies).1 = .nil) :
    ∃ store', s.Holds (e.flushFiles s disk replies).2.2 store'
      ∧ (e.withStore store).flush .ok
        = (.nil, (e.flushFiles s disk replies).2.1.withStore store')
      ∧ (e.flushFiles s disk replies).2.1 = { e with buffer := [] } := by
  have hflush : (e.withStore store).flush .ok
      = (.nil, ({ e with buffer := [] } : Engine R).withStore (store.appended e.buffer)) :=
    flush_ok rfl
  rw [flushFiles_eq hstore] at hnil ⊢
  by_cases hbuf : e.buffer = []
  · rw [if_pos hbuf]
    have hsame : ({ e with buffer := [] } : Engine R) = e := by rw [← hbuf]
    have hnone : store.appended [] = store := by
      unfold Storage.appended
      rw [List.append_nil]
    rw [hsame, hbuf, hnone] at hflush
    exact ⟨store, h, hflush, hsame.symm⟩
  · rw [if_neg hbuf] at hnil ⊢
    have happend : (s.appendAOF disk e.buffer replies).1 = .nil → _ := h.appendAOF hpaths hbuffer
    cases hended : s.appendAOF disk e.buffer replies with
    | mk ended disk' =>
      rw [hended] at hnil happend
      cases ended with
      | nil => exact ⟨_, happend rfl, hflush, rfl⟩
      | err err => exact nomatch hnil
      | stopped => exact nomatch hnil

omit [EncodingJSON] [LinearOrder R] [Zero R] [Strconv R] in
/-- Entries of valid texts make a snapshot of valid texts. -/
theorem encodable_snapshotEntries (h : State.Encodable e.state) (r : RangeOrder GoString)
    (now : GoString → Time) : ∀ key op, (e.snapshotEntries r now).lookup key = some op →
      IsUTF8 key ∧ op.Encodable := by
  intro key op hop
  rw [lookup_snapshotEntries, Option.map_eq_some_iff] at hop
  obtain ⟨entry, hvis, rfl⟩ := hop
  obtain ⟨hkey, hvalue⟩ := h key entry (Expiry.alive_eq_some_iff.mp hvis).1
  exact ⟨hkey, Nat.two_pow_pos 64, isUTF8_str _, hkey, hvalue⟩

omit [LinearOrder R] [Zero R] [Strconv R] in
/-- **A `Snapshot` over files that returns nil** is the snapshot over the storage
they hold. -/
theorem snapshotFiles_withStore [EncodingJSON.Coercing] {store : Storage}
    (h : s.Holds disk store) (hpaths : s.aofPath ≠ s.snapshotPath) (hstore : e.store ≠ none)
    (hbuffer : ∀ op ∈ e.buffer, op.Encodable) (hstate : State.Encodable e.state)
    (hsequence : e.sequence < 2 ^ 64) {r : RangeOrder GoString} {now : GoString → Time}
    {append : AppendReplies} {write clear : AtomicReplies} (hwrite : write.Fresh s)
    (hclear : clear.Fresh s)
    (hnil : (e.snapshotFiles s r disk now append write clear).1 = .nil) :
    ∃ store', s.Holds (e.snapshotFiles s r disk now append write clear).2.2 store'
      ∧ (e.withStore store).snapshot r now {}
        = (.nil, (e.snapshotFiles s r disk now append write clear).2.1.withStore store')
      ∧ (e.snapshotFiles s r disk now append write clear).2.1 = { e with buffer := [] } := by
  obtain ⟨st, hst⟩ := Option.ne_none_iff_exists'.mp hstore
  have hsnapshot : (e.withStore store).snapshot r now {}
      = (.nil, ({ e with buffer := [] } : Engine R).withStore
          { journal := [], snapshot := e.snapshotOf r now }) := snapshot_ok rfl r now
  have hflushed : (e.flushFiles s disk append).1 = .nil → _ :=
    flushFiles_withStore h hpaths hstore hbuffer
  unfold snapshotFiles at hnil ⊢
  rw [hst] at hnil ⊢
  dsimp only at hnil ⊢
  cases hended : e.flushFiles s disk append with
  | mk ended flushed =>
    obtain ⟨e', disk'⟩ := flushed
    rw [hended] at hnil hflushed
    cases ended with
    | err err => exact nomatch hnil
    | stopped => exact nomatch hnil
    | nil =>
      obtain ⟨store', hholds, _, he'⟩ := hflushed rfl
      dsimp only at hnil hholds he' ⊢
      subst he'
      unfold compactFiles at hnil ⊢
      have hwritten : (s.writeSnapshot disk' (e.snapshotOf r now) write).1 = .nil → _ :=
        hholds.writeSnapshot hpaths hsequence (encodable_snapshotEntries hstate r now) hwrite
      have hof : ({ e with buffer := [] } : Engine R).snapshotOf r now = e.snapshotOf r now := rfl
      rw [hof] at hnil ⊢
      cases hwriting : s.writeSnapshot disk' (e.snapshotOf r now) write with
      | mk ended disk₁ =>
        rw [hwriting] at hnil hwritten
        cases ended with
        | err err => exact nomatch hnil
        | stopped => exact nomatch hnil
        | nil =>
          have hcleared := (hwritten rfl).clearAOF hpaths hclear hnil
          exact ⟨_, hcleared, hsnapshot, by rw [← hst]⟩

end Engine

end WasmRedis
