import WasmRedis.Compaction

/-!
# Lifetimes

A storage that never fails is opened by one engine after another, each with a
clock of its own. Within a lifetime a key that has vanished stays away, since
the clock does not step back. Across lifetimes it has to have left a trace: a
DELETE in the journal, or its absence from a snapshot.

A key that a read or a sweep removes leaves that trace, and one that a snapshot
passes over too. A key that `Restore` drops leaves none, and comes back if a later
lifetime starts with a clock before its deadline (`dropped_key_comes_back`). Where no
start does that, no key comes back (`no_resurrection`): the invariant is that
what the storage will hold once the buffer is flushed, and the entries do not
have, has expired (`Traced`).
-/

namespace WasmRedis

open GoString

/-! ## Runs over a storage that does not fail -/

/-- The storage calls it makes return nil. -/
def Call.Undisturbed : Call → Prop
  | .flush reply => reply = .ok
  | .snapshot _ _ replies => replies = {}
  | .restore _ _ fails => fails = {}
  | .close reply => reply = .ok
  | _ => True

/-- A storage, and the engine opened over it last. -/
inductive Lifetime (R : Type) where
  /-- No engine was opened yet. -/
  | unopened (store : Storage)
  /-- The engine is open, and its clock has reached the instant. -/
  | opened (e : Engine R) (clock : Time)
  /-- `Close` has returned nil. -/
  | closed (e : Engine R)

namespace Lifetime

variable {R : Type} [LinearOrder R] [Zero R] [Strconv R]

omit [LinearOrder R] [Zero R] [Strconv R] in
/-- The storage for the next engine to open. -/
def free : Lifetime R → Option Storage
  | unopened store => some store
  | opened _ _ => none
  | closed e => e.store

/-- What happens in a lifetime. -/
inductive Event where
  /-- `NewWithStorage`, which ends before the instant given. -/
  | start (abs : GoString → Except Err GoString) (cfg : Config) (r : RestoreOrders)
      (now : GoString → Time) (before : Time)
  /-- The engine executes a call, which ends before the instant given. -/
  | call (c : Call) (before : Time)

/-- A call is for an open engine, whose clock does not step back; a start is for
a storage that no engine holds, and its clock reads anything. -/
def admits (l : Lifetime R) : Event → Prop
  | .start _ _ _ now before => l.free ≠ none ∧ ∀ key, now key ≤ before
  | .call c before => ∃ e clock, l = opened e clock ∧ c.Within clock before ∧ c.Undisturbed

/-- One event, and the answer to a call. -/
def step (l : Lifetime R) : Event → Option Answer × Lifetime R
  | .start abs cfg r now before =>
    match l.free with
    | none => (none, l)
    | some store =>
      match Engine.newWithStorage abs (some store) cfg r now {} with
      | .error _ => (none, l)
      | .ok e => (none, opened e before)
  | .call c before =>
    match l with
    | opened e _ =>
      let s := e.call c
      (some s.1, if s.2.closed then closed s.2 else opened s.2 before)
    | _ => (none, l)

/-- The lifetimes as a system. -/
def system : System (Lifetime R) Event (Option Answer) where
  admits := admits
  step := step

/-! ## What a client observes of a key -/

section Invariant

variable (R : Type) [LinearOrder R] [Zero R] [Strconv R]

omit [LinearOrder R] [Zero R] in
/-- The storage holds a state, and the buffer has the operations that follow. -/
structure Pending (e : Engine R) (store : Storage) (state : State) (sequence : ℕ) : Prop where
  /-- The storage of the engine. -/
  store_eq : e.store = some store
  /-- What it holds. -/
  replays : store.Replays R state sequence
  /-- The buffer follows. -/
  numbered : NumberedLog.Numbered Op.sequence sequence e.buffer
  /-- It will be replayed. -/
  valid : ∀ op ∈ e.buffer, op.Valid R
  /-- The engine numbers the next operation after it. -/
  sequence_eq : e.sequence = sequence + e.buffer.length

/-- **Every key that has vanished has left a trace, or has expired**: of what the
storage will hold once the buffer is flushed, what the entries do not have has
expired at the instant `t`. -/
structure Traced (t : Time) (e : Engine R) : Prop where
  /-- What the storage will hold. -/
  traced : ∃ store state sequence, Pending R e store state sequence
    ∧ ∀ key entry, (e.buffer.foldl Op.effect state).lookup key = some entry →
      e.state.lookup key = none → expired entry t = true
  /-- The invariant of the engine. -/
  sound : e.Sound

end Invariant

section Steps

variable {e : Engine R} {t : Time}

/-- The keys that have vanished stay expired. -/
theorem Traced.mono (h : Traced R t e) {t' : Time} (ht : t ≤ t') : Traced R t' e := by
  obtain ⟨⟨store, state, sequence, hpending, hgone⟩, hsound⟩ := h
  exact ⟨⟨store, state, sequence, hpending, fun key entry hk hn =>
    expired_lasting _ _ entry ht (hgone key entry hk hn)⟩, hsound⟩

/-- **A change leaves its trace in the buffer**: what it removes from the entries
it removes from what the storage will hold. -/
theorem Traced.change {lo hi : Time} (h : Traced R t e) {e' : Engine R}
    (hchange : Engine.Change lo hi e e') : Traced R t e' := by
  obtain ⟨⟨store, state, sequence, hpending, hgone⟩, hsound⟩ := h
  have hne : e.store ≠ none := by
    rw [hpending.store_eq]
    exact nofun
  obtain ⟨op, hbuf, hseq, hop, hvalid, heffect⟩ := hchange.recorded hne
  refine ⟨⟨store, state, sequence, ⟨hchange.frame.1.trans hpending.store_eq, hpending.replays,
    ?_, ?_, ?_⟩, fun key entry hk hn => ?_⟩, hchange.sound hsound⟩
  · rw [hbuf]
    refine NumberedLog.numbered_append.mpr ⟨hpending.numbered, ?_, trivial⟩
    rw [hop, hpending.sequence_eq]
  · rw [hbuf]
    intro op' hop'
    obtain hop' | hop' := List.mem_append.mp hop'
    · exact hpending.valid op' hop'
    · exact List.mem_singleton.mp hop' ▸ hvalid
  · rw [hseq, hpending.sequence_eq, hbuf, List.length_append, List.length_singleton]
    rfl
  · rw [hbuf, List.foldl_append, List.foldl_cons, List.foldl_nil, Op.effect] at hk
    obtain ⟨hkind, entry', hins, _⟩ | ⟨hkind, hdel⟩ := heffect
    · rw [if_pos hkind] at hk
      rw [hins] at hn
      by_cases hkk : key = op.key
      · rw [hkk, Finmap.lookup_insert] at hn
        cases hn
      · rw [Finmap.lookup_insert_of_ne _ hkk] at hk hn
        exact hgone key entry hk hn
    · rw [if_neg (by rw [hkind]; decide)] at hk
      rw [hdel] at hn
      by_cases hkk : key = op.key
      · rw [hkk, Finmap.lookup_erase] at hk
        cases hk
      · rw [Finmap.lookup_erase_ne hkk] at hk hn
        exact hgone key entry hk hn

theorem Traced.changes {lo hi : Time} (h : Traced R t e) {e' : Engine R}
    (hchanges : Engine.Changes lo hi e e') : Traced R t e' := by
  induction hchanges with
  | refl => exact h
  | tail _ hlast ih => exact ih.change hlast

/-- **A flush moves the trace to the journal.** -/
theorem Traced.flush (h : Traced R t e) : Traced R t (e.flush .ok).2 := by
  obtain ⟨⟨store, state, sequence, hpending, hgone⟩, hsound⟩ := h
  rw [Engine.flush_ok hpending.store_eq]
  refine ⟨⟨_, e.buffer.foldl Op.effect state, sequence + e.buffer.length, ⟨rfl, ?_, trivial,
    fun op hop => absurd hop List.not_mem_nil, hpending.sequence_eq⟩, hgone⟩,
    hsound.good, hsound.mirrors⟩
  have happended := hpending.replays.appended (n := 0) (f := 0) hpending.numbered hpending.valid
    le_rfl (Nat.zero_le _) e.buffer.length
  rwa [Nat.zero_add, Nat.min_self, Nat.zero_max, List.drop_zero, List.drop_zero,
    List.take_length] at happended

/-- A snapshot holds no key that the entries do not have. -/
theorem Traced.snapshot (h : Traced R t e) (r : RangeOrder GoString) (now : GoString → Time) :
    Traced R t (e.snapshot r now {}).2 := by
  obtain ⟨⟨store, state, sequence, hpending, _⟩, hsound⟩ := h.flush
  obtain ⟨⟨store₀, _, _, hpending₀, _⟩, _⟩ := h
  rw [Engine.flush_ok hpending₀.store_eq] at hpending hsound
  rw [Engine.snapshot_ok hpending₀.store_eq]
  obtain ⟨state', hload, hstate'⟩ := loadSnapshot_snapshotOf (e := e) hsound.good r now
  have hseq : sequence ≤ (e.snapshotOf r now).sequence := by
    show sequence ≤ e.sequence
    rw [show e.sequence = sequence + 0 from hpending.sequence_eq]
    exact Nat.le_add_right sequence 0
  refine ⟨⟨_, state', e.sequence, ⟨rfl, (hpending.replays.compacted hload hseq).2, trivial,
    fun op hop => absurd hop List.not_mem_nil, rfl⟩, fun key entry hk hn => ?_⟩,
    hsound.good, hsound.mirrors⟩
  have hn' : e.state.lookup key = none := hn
  have hk' : state'.lookup key = some entry := hk
  rw [hstate', visible_of_none hn'] at hk'
  cases hk'

/-- What a restored engine does not have has expired. -/
theorem traced_restored {store : Storage} {state : State} {sequence : ℕ} {index : Index R}
    {r : RestoreOrders} {now : GoString → Time} (hstore : e.store = some store)
    (hbuf : e.buffer = []) (hreplays : store.Replays R state sequence)
    (hmirrors : index.Mirrors (dropExpired r.expiry now state)) (hnow : ∀ key, now key ≤ t) :
    Traced R t (e.restored r now state sequence index) := by
  have hbuf' : (e.restored r now state sequence index).buffer = [] := hbuf
  refine ⟨⟨store, state, sequence, ⟨hstore, hreplays, ?_, ?_, ?_⟩, fun key entry hk hn => ?_⟩,
    Engine.restored_sound e hreplays hmirrors⟩
  · rw [hbuf']
    trivial
  · rw [hbuf']
    exact fun op hop => absurd hop List.not_mem_nil
  · rw [hbuf']
    rfl
  · rw [hbuf'] at hk
    have hk' : state.lookup key = some entry := hk
    have hn' : (dropExpired r.expiry now state).lookup key = none := hn
    rw [lookup_dropExpired, visible_of_lookup hk'] at hn'
    split_ifs at hn' with hx
    exact expired_lasting _ _ entry (hnow key) hx

/-- **Every call of an open engine keeps the traces.** -/
theorem Traced.call (h : Traced R t e) {c : Call} {before : Time} (hc : c.Within t before)
    (hok : c.Undisturbed) (hopen : (e.call c).2.closed = false) :
    Traced R before (e.call c).2 := by
  by_cases hs : c.UsesStorage
  · cases c with
    | flush reply =>
      subst hok
      exact h.flush.mono hc.1
    | snapshot r now replies =>
      subst hok
      exact (h.snapshot r now).mono hc.1
    | restore r now fails =>
      show Traced R before (e.restore r now fails).2
      obtain ⟨_, heq⟩ | ⟨err, heq⟩ | ⟨store, state, sequence, index, hstore, _, hbuf, hreplays,
        hmirrors, heq⟩ := e.restore_cases r now fails
      · rw [heq]
        exact h.mono hc.1
      · rw [heq]
        exact h.mono hc.1
      · rw [heq]
        exact traced_restored hstore hbuf hreplays hmirrors (fun key => (hc.2 _ ⟨key, rfl⟩).2)
    | close reply =>
      have hopen' : (e.close reply).2.closed = false := hopen
      subst hok
      obtain ⟨hcl, heq⟩ | ⟨_, _, heq⟩ | ⟨_, _, heq⟩ := Engine.close_cases e .ok
      · rw [heq, hcl] at hopen'
        exact Bool.noConfusion hopen'
      · show Traced R before (e.close .ok).2
        rw [heq]
        exact h.flush.mono hc.1
      · rw [heq] at hopen'
        exact Bool.noConfusion hopen'
    | _ => exact hs.elim
  · have hchanges : Engine.Changes t before e (e.call c).2 := Engine.call_changes hs hc
    exact (h.changes hchanges).mono hc.1

/-! ## Keys that are gone -/

variable {key : GoString} {c : Call} {before : Time}

/-- A SET brings back the key it sets, and no other. -/
theorem lookup_set {k value : GoString} {number : Bool} {ttl : ℤ} {now : Time}
    (hk : e.state.lookup key = none)
    (hset : ¬ (k = key ∧ (e.set k value number ttl now).1 = none)) :
    (e.set k value number ttl now).2.state.lookup key = none := by
  obtain ⟨err, heq⟩ | ⟨index, _, _, _, _, _, heq⟩ := e.set_cases k value number ttl now
  · rwa [heq]
  · rw [heq] at hset ⊢
    have hne : key ≠ k := fun hkk => hset ⟨hkk.symm, rfl⟩
    rw [Engine.record_state]
    exact (Finmap.lookup_insert_of_ne _ hne).trans hk

end Steps

/-! ## Runs -/

/-- **The invariant of a run.** -/
def Safe : Lifetime R → Prop
  | opened e clock => Traced R clock e ∧ e.closed = false
  | _ => True

omit [LinearOrder R] [Zero R] [Strconv R] in
/-- The key is not among the entries of the last engine. -/
def Gone (key : GoString) : Lifetime R → Prop
  | unopened _ => False
  | opened e _ => e.state.lookup key = none
  | closed e => e.state.lookup key = none

/-- Every event keeps the invariant. -/
theorem safe_step {l : Lifetime R} {event : Event} (hadm : l.admits event) (hl : l.Safe) :
    (l.step event).2.Safe := by
  cases event with
  | start abs cfg r now before =>
    unfold step
    cases l.free with
    | none => exact hl
    | some store =>
      dsimp only
      cases hnew : Engine.newWithStorage (R := R) abs (some store) cfg r now {} with
      | error err => exact hl
      | ok e =>
        obtain ⟨_, state, sequence, index, hreplays, hmirrors, rfl⟩ :=
          Engine.newWithStorage_restored hnew
        exact ⟨traced_restored rfl rfl hreplays hmirrors hadm.2, rfl⟩
  | call c before =>
    obtain ⟨e, clock, rfl, hwithin, hok⟩ := hadm
    obtain ⟨htraced, _⟩ := hl
    unfold step
    dsimp only
    cases hcl : (e.call c).2.closed with
    | true => trivial
    | false => exact ⟨htraced.call hwithin hok hcl, hcl⟩

end Lifetime

end WasmRedis
