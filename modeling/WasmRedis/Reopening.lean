import WasmRedis.Deadlines
import WasmRedis.Durability
import WasmRedis.EngineFiles
import WasmRedis.Recovery

/-!
# What a restart on the same files gives back

The engine keeps a key or a value of any bytes; the files hold JSON, in which a
byte that is not UTF-8 becomes `U+FFFD`. `set` refuses a deadline that the files
cannot hold, and no text. So two keys that differ in such bytes become one key
on the next start (`two_keys_become_one`), and no text that is not UTF-8 ever
comes back.

Where the texts of every `set` that succeeded are UTF-8, a start on the same files
gives back, after a flush or a snapshot that returned nil, every key that has not
expired, with its value (`reopened`). The proof is a simulation: the engine over
its files does what the engine over the storage they hold does, of which
`Tracks` says what it keeps.
-/

namespace WasmRedis

open GoString

/-- An engine over its files, and an instant that its clock has reached. -/
structure Filed (R : Type) where
  /-- The engine. -/
  engine : Engine R
  /-- The files. -/
  disk : Disk
  /-- The clock. -/
  clock : Time

namespace Filed

/-- What happens to an engine over its files. -/
inductive Event where
  /-- `Set`, or the typed `set` behind a SET command. -/
  | set (key value : GoString) (number : Bool) (ttl : ℤ) (now : Time)
  /-- `Flush`. -/
  | flush (replies : AppendReplies)
  /-- `Snapshot`, which ends before the instant given. -/
  | snapshot (r : RangeOrder GoString) (now : GoString → Time) (before : Time)
      (append : AppendReplies) (write clear : AtomicReplies)

/-- The event writes what is in memory to the files. -/
def Event.Saves : Event → Prop
  | .set _ _ _ _ _ => False
  | _ => True

variable {R : Type}

/-- The clock never goes back, and temporary files have names of their own. -/
def admits (s : FileStorage) (w : Filed R) : Event → Prop
  | .set _ _ _ _ now => w.clock ≤ now
  | .flush _ => True
  | .snapshot _ now before _ write clear =>
    w.clock ≤ before ∧ (∀ key, w.clock ≤ now key ∧ now key ≤ before) ∧ write.Fresh s
      ∧ clear.Fresh s

section

variable [EncodingJSON] [LinearOrder R] [Zero R] [Strconv R]

/-- One event. -/
def step (s : FileStorage) (w : Filed R) : Event → Answer × Filed R
  | .set key value number ttl now =>
    let done := w.engine.set key value number ttl now
    (.error done.1, { w with engine := done.2, clock := now })
  | .flush replies =>
    let done := w.engine.flushFiles s w.disk replies
    (.ended done.1, { w with engine := done.2.1, disk := done.2.2 })
  | .snapshot r now before append write clear =>
    let done := w.engine.snapshotFiles s r w.disk now append write clear
    (.ended done.1, { engine := done.2.1, disk := done.2.2, clock := before })

/-- An engine over its files, as a system. -/
def system (s : FileStorage) : System (Filed R) Event Answer where
  admits := admits s
  step := step s

end

/-- **What the files can keep**: the key and the value of a `set` that succeeds
are valid UTF-8, its deadline is not the instant `0`, and its number is a
`uint64`. A flush and a snapshot return nil. -/
def Lossless (w : Filed R) : Event → Answer → Prop
  | .set key value _ ttl now, answer => answer = .error none →
    IsUTF8 key ∧ IsUTF8 value
      ∧ Engine.deadline (w.engine.effectiveTTL ttl) now ≠ 0 ∧ w.engine.sequence + 1 < 2 ^ 64
  | .flush _, answer => answer = .ended .nil
  | .snapshot _ _ _ _ _ _, answer => answer = .ended .nil

/-! ## The simulation -/

section

variable [EncodingJSON] [LinearOrder R] [Zero R] [Strconv R] {s : FileStorage} {w : Filed R}

/-- **The invariant**: the engine over the storage that the files hold keeps
track of what it recorded, and all its texts are valid UTF-8. -/
structure Faithful (s : FileStorage) (w : Filed R) : Prop where
  /-- The files hold a storage, over which the engine keeps track. -/
  tracks : ∃ store base start recorded f n, s.Holds w.disk store
    ∧ Tracks R w.clock base start recorded f n (w.engine.withStore store)
  /-- There is a storage. -/
  store : w.engine.store ≠ none
  /-- The operations of the buffer can be written. -/
  buffer : ∀ op ∈ w.engine.buffer, op.Encodable
  /-- The texts of the entries are valid UTF-8. -/
  state : State.Encodable w.engine.state
  /-- The number is a `uint64`. -/
  sequence : w.engine.sequence < 2 ^ 64

/-- What is opened is faithful. -/
theorem faithful_opened [EncodingJSON.Coercing] (hpaths : s.aofPath ≠ s.snapshotPath)
    {abs : GoString → Except Err GoString} {disk disk' : Disk} {cfg : Config} {r : RestoreOrders}
    {now : GoString → Time} {e : Engine R}
    (hopen : Engine.openFiles abs s disk cfg r now .ok {} = (.ok e, disk')) {t : Time}
    (ht : ∀ key, now key ≤ t) :
    Faithful s ⟨e, disk', t⟩ := by
  obtain ⟨store, hholds, henc, hnew⟩ := Engine.openFiles_ok hpaths hopen
  have hstate := Engine.encodable_of_newWithStorage henc hnew
  obtain ⟨_, state, sequence, index, hreplays, _, he⟩ := Engine.newWithStorage_restored hnew
  have hkeeps : Keeps R t state sequence [] 0 store :=
    ⟨le_rfl, nofun, state, hreplays, Expiry.AgreeFrom.refl⟩
  have htracks := hkeeps.started hnew ht
  have hstore : e.withStore store = e := by rw [he]; rfl
  refine ⟨⟨store, _, _, _, _, _, hholds, hstore.symm ▸ htracks⟩, ?_, ?_, hstate, ?_⟩
  · rw [he]
    exact nofun
  · rw [he]
    exact nofun
  · rw [he]
    show sequence < 2 ^ 64
    obtain rfl | ⟨op, hop, rfl⟩ := hreplays.sequence_eq
    · exact henc.sequence
    · exact (henc.journal op hop).sequence

omit [EncodingJSON] [LinearOrder R] [Zero R] [Strconv R] in
/-- What holds of the entries and of the one that is put holds afterwards. -/
theorem forall_insert {P : GoString → Entry → Prop} {state : State} {key : GoString}
    {entry : Entry} (hentry : P key entry)
    (h : ∀ key entry, state.lookup key = some entry → P key entry) :
    ∀ key' entry', (state.insert key entry).lookup key' = some entry' → P key' entry' := by
  intro key' entry' hk
  by_cases hkk : key' = key
  · rw [hkk, Finmap.lookup_insert] at hk
    exact hkk ▸ Option.some.inj hk ▸ hentry
  · rw [Finmap.lookup_insert_of_ne _ hkk] at hk
    exact h key' entry' hk

/-- A lossless `set` keeps the invariant. -/
theorem faithful_set (h : Faithful s w) {key value : GoString} {number : Bool} {ttl : ℤ}
    {now : Time} (hnow : w.clock ≤ now)
    (hset : w.Lossless (.set key value number ttl now)
      (step s w (.set key value number ttl now)).1) :
    Faithful s (step s w (.set key value number ttl now)).2 := by
  obtain ⟨store, base, start, recorded, f, n, hholds, htracks⟩ := h.tracks
  unfold step at hset ⊢
  dsimp only at hset ⊢
  rcases Engine.set_cases w.engine key value number ttl now with
    ⟨err, heq⟩ | ⟨index, hcl, _, hnum, hrange, hidx, heq⟩
  · rw [heq]
    exact ⟨⟨store, base, start, recorded, f, n, hholds, htracks.mono hnow⟩, h.store, h.buffer,
      h.state, h.sequence⟩
  · rw [heq] at hset ⊢
    obtain ⟨hkey, hvalue, hdeadline, hsequence⟩ := hset rfl
    let entry : Entry := ⟨key, value, number, Engine.deadline (w.engine.effectiveTTL ttl) now⟩
    let put : Engine R := { w.engine with index := index, state := w.engine.state.insert key entry }
    have hput : put.store ≠ none := h.store
    have hstorable : entry.Storable := ofStored_toStored_deadline hdeadline hrange
    -- the same change, over the storage that the files hold
    have hchange : Engine.Change w.clock now (w.engine.withStore store)
        ((put.record kindSet entry).withStore store) := by
      rw [← Engine.withStore_record hput]
      exact Engine.Change.put entry index (w.engine.effectiveTTL ttl) now hcl hnow le_rfl rfl hrange
        hnum hidx
    have hstate : (put.record kindSet entry).state = w.engine.state.insert key entry :=
      Engine.record_state put kindSet entry
    obtain ⟨op, _, htracks'⟩ := htracks.change hchange (by
      show ∀ key' entry', (put.record kindSet entry).state.lookup key' = some entry' → _
      rw [hstate]
      exact forall_insert (P := fun _ entry => entry.Storable) hstorable htracks.storable)
    refine ⟨⟨store, base, start, recorded ++ [op], f, n, hholds, htracks'.mono hnow⟩,
      ?_, ?_, ?_, ?_⟩
    · show (put.record kindSet entry).store ≠ none
      rw [Engine.record_store]
      exact hput
    · show ∀ op ∈ (put.record kindSet entry).buffer, op.Encodable
      rw [Engine.record_buffer put kindSet entry hput]
      intro op' hop'
      obtain hop' | hop' := List.mem_append.mp hop'
      · exact h.buffer op' hop'
      · rw [List.mem_singleton.mp hop']
        exact ⟨hsequence, isUTF8_str _, hkey, hvalue⟩
    · show State.Encodable (put.record kindSet entry).state
      rw [hstate]
      exact forall_insert (P := fun key entry => IsUTF8 key ∧ IsUTF8 entry.value) ⟨hkey, hvalue⟩
        h.state
    · show (put.record kindSet entry).sequence < 2 ^ 64
      rw [Engine.record_sequence put kindSet entry hput]
      exact hsequence

/-- What is saved stays faithful, with nothing left in the buffer. -/
theorem Faithful.saved (h : Faithful s w) {w' : Filed R}
    (he : w'.engine = { w.engine with buffer := [] })
    (htracks : ∃ store base start recorded f n, s.Holds w'.disk store
      ∧ Tracks R w'.clock base start recorded f n (w'.engine.withStore store)) :
    Faithful s w' ∧ w'.engine.buffer = [] := by
  refine ⟨⟨htracks, ?_, ?_, ?_, ?_⟩, ?_⟩
  all_goals rw [he]
  · exact h.store
  · exact fun op hop => absurd hop List.not_mem_nil
  · exact h.state
  · exact h.sequence

/-- A flush that returns nil keeps the invariant. -/
theorem faithful_flush [EncodingJSON.Lawful] (hpaths : s.aofPath ≠ s.snapshotPath)
    (h : Faithful s w) {replies : AppendReplies}
    (hnil : (step s w (.flush replies)).1 = .ended .nil) :
    Faithful s (step s w (.flush replies)).2
      ∧ (step s w (.flush replies)).2.engine.buffer = [] := by
  obtain ⟨store, base, start, recorded, f, n, hholds, htracks⟩ := h.tracks
  obtain ⟨store', hholds', hflush, he⟩ := Engine.flushFiles_withStore hholds hpaths h.store h.buffer
    (Answer.ended.inj hnil)
  obtain ⟨f', n', _, htracks', _⟩ := htracks.flush .ok
  rw [hflush] at htracks'
  exact h.saved he ⟨store', base, start, recorded, f', n', hholds', htracks'⟩

/-- A snapshot that returns nil keeps the invariant. -/
theorem faithful_snapshot [EncodingJSON.Coercing] (hpaths : s.aofPath ≠ s.snapshotPath)
    (h : Faithful s w) {r : RangeOrder GoString} {now : GoString → Time} {before : Time}
    {append : AppendReplies} {write clear : AtomicReplies}
    (hadm : admits s w (.snapshot r now before append write clear))
    (hnil : (step s w (.snapshot r now before append write clear)).1 = .ended .nil) :
    Faithful s (step s w (.snapshot r now before append write clear)).2
      ∧ (step s w (.snapshot r now before append write clear)).2.engine.buffer = [] := by
  obtain ⟨hbefore, hnow, hwrite, hclear⟩ := hadm
  obtain ⟨store, base, start, recorded, f, n, hholds, htracks⟩ := h.tracks
  obtain ⟨store', hholds', hsnapshot, he⟩ := Engine.snapshotFiles_withStore hholds hpaths h.store
    h.buffer h.state h.sequence hwrite hclear (Answer.ended.inj hnil)
  obtain ⟨f', n', _, htracks', _⟩ := htracks.snapshot r hbefore (fun key => (hnow key).2) {}
  rw [hsnapshot] at htracks'
  exact h.saved he ⟨store', base, start, recorded, f', n', hholds', htracks'⟩

/-- **Every lossless event keeps the invariant.** -/
theorem faithful_step [EncodingJSON.Coercing] (hpaths : s.aofPath ≠ s.snapshotPath) {event : Event}
    (hadm : admits s w event) (hlossless : w.Lossless event (step s w event).1)
    (h : Faithful s w) : Faithful s (step s w event).2 := by
  cases event with
  | set key value number ttl now => exact faithful_set h hadm hlossless
  | flush replies => exact (faithful_flush hpaths h hlossless).1
  | snapshot r now before append write clear => exact (faithful_snapshot hpaths h hadm hlossless).1

/-- An event that saves leaves nothing in the buffer. -/
theorem buffer_of_saves [EncodingJSON.Coercing] (hpaths : s.aofPath ≠ s.snapshotPath)
    {event : Event} (hadm : admits s w event) (hlossless : w.Lossless event (step s w event).1)
    (h : Faithful s w) (hsaves : event.Saves) : (step s w event).2.engine.buffer = [] := by
  cases event with
  | set key value number ttl now => exact hsaves.elim
  | flush replies => exact (faithful_flush hpaths h hlossless).2
  | snapshot r now before append write clear => exact (faithful_snapshot hpaths h hadm hlossless).2

/-! ## Reopening -/

/-- **The files give back what is in memory**: a start on them succeeds with any
valid settings, and from then on every `Get` returns what it would have returned
without the restart. -/
def GivesBack (s : FileStorage) (w : Filed R) : Prop :=
  ∀ (abs : GoString → Except Err GoString) (cfg : Config) (r : RestoreOrders)
    (now : GoString → Time), cfg.validate abs = .ok () → (∀ key, w.clock ≤ now key) →
    ∃ (e : Engine R) (disk : Disk), Engine.openFiles abs s w.disk cfg r now .ok {} = (.ok e, disk)
      ∧ ∀ key t, (∀ k, now k ≤ t) → (e.get key t).1 = (w.engine.get key t).1

/-- A faithful engine with nothing to flush. -/
theorem Faithful.givesBack (h : Faithful s w) (hbuffer : w.engine.buffer = []) : GivesBack s w := by
  intro abs cfg r now hcfg hnow
  obtain ⟨store, base, start, recorded, f, n, hholds, htracks⟩ := h.tracks
  obtain ⟨hn, _⟩ := htracks.of_empty hbuffer
  obtain ⟨store', hstore', hkeeps⟩ := htracks.keeps
  obtain rfl : store = store' := Option.some.inj hstore'
  obtain ⟨state, hreplays, hsame⟩ := hkeeps.contents
  rw [hn, List.take_length] at hsame
  have hsame' : SameFrom w.clock state w.engine.state := hsame.trans htracks.same.symm
  obtain ⟨e, hnew, hstate, _⟩ := Engine.newWithStorage_of_replays r now hcfg hreplays
  obtain ⟨disk, hopen⟩ := Engine.openFiles_of_holds hholds hnew
  refine ⟨e, disk, hopen, fun key t ht => ?_⟩
  have hdropped : SameFrom t (dropExpired r.expiry now state) state :=
    sameFrom_of_visible (lookup_dropExpired r.expiry now state) ht
  have hvisible : visible t (dropExpired r.expiry now state) key = visible t w.engine.state key :=
    (hdropped t le_rfl key).trans (hsame' t ((hnow key).trans (ht key)) key)
  rw [Engine.get_eq, Engine.get_eq, ← hvisible, hstate]

/-- **A restart gives back what was set**: in every lossless run of an engine
opened on the files, every flush and every snapshot leaves files that give back
what is in memory. -/
theorem reopened [EncodingJSON.Coercing] (hpaths : s.aofPath ≠ s.snapshotPath)
    {abs : GoString → Except Err GoString} {disk disk' : Disk} {cfg : Config} {r : RestoreOrders}
    {now : GoString → Time} {e : Engine R}
    (hopen : Engine.openFiles abs s disk cfg r now .ok {} = (.ok e, disk')) {t : Time}
    (ht : ∀ key, now key ≤ t) {events : List Event} {last : Event} (hlast : last.Saves)
    (hadmits : (system s).Admits ⟨e, disk', t⟩ (events ++ [last]))
    (hlossless : (system s).Throughout Lossless ⟨e, disk', t⟩ (events ++ [last])) :
    GivesBack s ((system s).after ⟨e, disk', t⟩ (events ++ [last])) := by
  obtain ⟨hadm, hadm', _⟩ := ((system s).admits_append _ _ _).mp hadmits
  obtain ⟨hloss, hloss', _⟩ := ((system s).throughout_append _ _ _ _).mp hlossless
  have hfaithful : Faithful s ((system s).after ⟨e, disk', t⟩ events) :=
    hloss.invariant hadm (faithful_opened hpaths hopen ht)
      (fun w event hadm hloss h => faithful_step hpaths hadm hloss h)
  rw [System.after_concat]
  exact (faithful_step hpaths hadm' hloss' hfaithful).givesBack
    (buffer_of_saves hpaths hadm' hloss' hfaithful hlast)

/-- **No other text comes back**: what is opened on any files has no key and no
value that is not valid UTF-8. -/
theorem isUTF8_of_get [EncodingJSON.Coercing] (hpaths : s.aofPath ≠ s.snapshotPath)
    {abs : GoString → Except Err GoString} {disk disk' : Disk} {cfg : Config} {r : RestoreOrders}
    {now : GoString → Time} {e : Engine R}
    (hopen : Engine.openFiles abs s disk cfg r now .ok {} = (.ok e, disk')) {key value : GoString}
    {t : Time} (hget : (e.get key t).1 = .ok value) : IsUTF8 key ∧ IsUTF8 value := by
  obtain ⟨store, _, henc, hnew⟩ := Engine.openFiles_ok hpaths hopen
  have hstate := Engine.encodable_of_newWithStorage henc hnew
  rw [Engine.get_eq] at hget
  cases hvis : visible t e.state key with
  | none =>
    rw [hvis] at hget
    exact nomatch hget
  | some entry =>
    rw [hvis] at hget
    obtain rfl : entry.value = value := Except.ok.inj hget
    exact hstate key entry (Expiry.alive_eq_some_iff.mp hvis).1

end

/-! ## A run that is lossless, and one that is not -/

/-- The engine that starts where there are no files. -/
def fresh : Engine ℕ :=
  { (Engine.new : Engine ℕ) with store := some Storage.empty, cfg := Config.default }

theorem openFiles_fresh :
    Engine.openFiles (R := ℕ) Except.ok files ∅ Config.default RestoreOrders.sorted (fun _ => 0)
      .ok {} = (.ok fresh, ∅) := rfl

/-- Two keys, of which the first has a deadline and is flushed. -/
def twoKeys : List Event :=
  [.set (str "é") (str "1") true 5 0, .flush {}, .set (str "b") (str "x") false 0 1]

/-- A snapshot, whose two temporary files have the same name. -/
def saved : Event :=
  .snapshot RangeOrder.sorted (fun _ => 2) 2 {} { temp := str "tmp" } { temp := str "tmp" }

theorem reopened_twoKeys :
    GivesBack files ((system files).after ⟨fresh, ∅, 0⟩ (twoKeys ++ [saved])) := by
  have hfresh : AtomicReplies.Fresh { temp := str "tmp" } files := ⟨by decide, by decide⟩
  have hzero : (0 : Time) ≤ 1 := by decide
  have hone : (1 : Time) ≤ 2 := by decide
  refine reopened (by decide) openFiles_fresh (fun _ => le_rfl) trivial ?_ ?_
  · exact ⟨le_rfl, trivial, hzero, ⟨hone, fun _ => ⟨hone, le_rfl⟩, hfresh, hfresh⟩, trivial⟩
  · -- the first key, the flush, the second key and the snapshot
    refine ⟨fun _ => ⟨isUTF8_str _, isUTF8_str _, ?_, ?_⟩, ?_,
      fun _ => ⟨isUTF8_str _, isUTF8_str _, ?_, ?_⟩, ?_, trivial⟩
    · decide
    · decide
    · show _ = _
      decide +kernel
    · decide +kernel
    · decide +kernel
    · show _ = _
      decide +kernel

/-- Two keys of one byte that is not UTF-8, and a flush. -/
def merging : List Event :=
  [.set [0xff] (str "a") false 0 0, .set [0xfe] (str "b") false 0 0, .flush {}]

set_option maxRecDepth 8000 in
/-- **Both keys are `U+FFFD` in the journal**: each event returns nil, and the
next start finds one key, which is neither. -/
theorem two_keys_become_one :
    let w := (system files).after ⟨fresh, ∅, 0⟩ merging
    (system files).Admits ⟨fresh, ∅, 0⟩ merging
      ∧ (system files).answers ⟨fresh, ∅, 0⟩ merging = [.error none, .error none, .ended .nil]
      ∧ (w.engine.get [0xff] 0).1 = .ok (str "a") ∧ (w.engine.get [0xfe] 0).1 = .ok (str "b")
      ∧ (Engine.openFiles (R := ℕ) Except.ok files w.disk Config.default RestoreOrders.sorted
          (fun _ => 0) .ok {}).1.map (fun e => e.state.keys) = .ok {str "\uFFFD"}
      ∧ ¬ GivesBack files w := by
  intro w
  have hget : (w.engine.get [0xff] 0).1 = .ok (str "a") := rfl
  have hkey : ¬ IsUTF8 [0xff] := by decide
  refine ⟨⟨le_rfl, le_rfl, trivial, trivial⟩, by decide, hget, rfl, rfl, fun h => hkey ?_⟩
  obtain ⟨e, disk, hopen, hsame⟩ := h Except.ok Config.default RestoreOrders.sorted (fun _ => 0)
    rfl (fun _ => le_rfl)
  exact (isUTF8_of_get (by decide) hopen ((hsame [0xff] 0 (fun _ => le_rfl)).trans hget)).1

end Filed

end WasmRedis
