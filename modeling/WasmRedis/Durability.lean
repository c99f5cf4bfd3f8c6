import WasmRedis.Compaction

/-!
# Durability

What survives a crash? This module follows an engine over any number of starts,
stops and failing storage calls, and keeps beside it, as a ghost, what the last
start rebuilt, the operations recorded since, and how many of these had been
recorded when a `Flush`, a `Snapshot` or a `Close` last returned nil.

At every moment the storage holds, for one number `n`, what the first `n`
operations recorded make of the state last rebuilt, as far as it has not expired
(`Keeps`): no batch that was retried counts twice, a snapshot without its
`ClearAOF` counts once, and the entries a snapshot leaves out had expired. `n`
only grows, and it is past every operation acknowledged. This is what a restart
reads (`durability`).
-/

namespace WasmRedis

open GoString

/-! ## The world -/

/-- An engine that runs, or the storage of one that has stopped. -/
inductive Phase (R : Type) where
  /-- The process runs. -/
  | up (e : Engine R)
  /-- The process has stopped, or was never started. -/
  | down (store : Storage)

/-- **The world**: the process and its clock, and the ghost of what it did. -/
structure World (R : Type) where
  /-- The process, or its storage. -/
  phase : Phase R
  /-- An instant that the clock has reached. -/
  clock : Time
  /-- The state rebuilt by the last start. -/
  base : State
  /-- The operations recorded since. -/
  recorded : List Op
  /-- How many of them were recorded before the last `Flush`, `Snapshot` or
  `Close` that returned nil. -/
  durable : ℕ

/-- What happens in the world. -/
inductive Happening where
  /-- The engine executes a call, which ends before the instant given. -/
  | call (c : Call) (before : Time)
  /-- The process stops between two calls. -/
  | stop
  /-- The process is started with `NewWithStorage`, and the start ends before
  the instant given. -/
  | start (abs : GoString → Except Err GoString) (cfg : Config) (r : RestoreOrders)
      (now : GoString → Time) (fails : ReadFailures) (before : Time)

namespace World

variable {R : Type} [LinearOrder R] [Zero R] [Strconv R]

omit [LinearOrder R] [Zero R] [Strconv R] in
/-- A storage on which nothing was written, before the first start. -/
def init (t : Time) : World R :=
  { phase := .down Storage.empty, clock := t, base := ∅, recorded := [], durable := 0 }

/-- The clock never goes back; calls are for a process that runs, and a start
for one that does not. -/
def admits (w : World R) : Happening → Prop
  | .call c before => (∃ e, w.phase = .up e) ∧ c.Within w.clock before
  | .stop => True
  | .start _ _ _ now _ before =>
    (∃ store, w.phase = .down store) ∧ w.clock ≤ before
      ∧ ∀ key, w.clock ≤ now key ∧ now key ≤ before

omit [LinearOrder R] [Zero R] [Strconv R] in
/-- The operations a call recorded: those it appended to the buffer. -/
def recordedBy (e e' : Engine R) : List Op := e'.buffer.drop e.buffer.length

/-- One event. A call in which the process stops leaves the storage as it is. -/
def step (w : World R) : Happening → Unit × World R
  | .call c before =>
    match w.phase with
    | .down _ => ((), w)
    | .up e =>
      let answer := (e.call c).1
      let e' := (e.call c).2
      let recorded := w.recorded ++ recordedBy e e'
      ((), { w with
        phase := if answer = .ended .stopped then .down (e'.store.getD Storage.empty) else .up e'
        clock := before
        recorded := recorded
        durable := if answer = .ended .nil then recorded.length else w.durable })
  | .stop =>
    match w.phase with
    | .down _ => ((), w)
    | .up e => ((), { w with phase := .down (e.store.getD Storage.empty) })
  | .start abs cfg r now fails before =>
    match w.phase with
    | .up _ => ((), w)
    | .down store =>
      match Engine.newWithStorage abs (some store) cfg r now fails with
      | .error _ => ((), { w with clock := before })
      | .ok e =>
        ((), { phase := .up e, clock := before, base := e.state, recorded := [], durable := 0 })

/-- The world as a system. -/
def system : System (World R) Happening Unit where
  admits := admits
  step := step

end World

/-! ## The invariant -/

section Invariant

variable (R : Type) [LinearOrder R] [Zero R] [Strconv R]

omit [LinearOrder R] [Zero R] in
/-- **The storage keeps the first `n` of the operations recorded**: it includes
them and no other, and what it holds looks, from the instant `t` on, as what
they make of the state last rebuilt. -/
structure Keeps (t : Time) (base : State) (start : ℕ) (recorded : List Op) (n : ℕ)
    (store : Storage) : Prop where
  /-- They were recorded. -/
  le : n ≤ recorded.length
  /-- The operations recorded are valid. -/
  valid : ∀ op ∈ recorded, op.Valid R
  /-- What the storage holds. -/
  contents : ∃ state, store.Replays R state (start + n)
    ∧ SameFrom t state ((recorded.take n).foldl Op.effect base)

/-- **The engine keeps track of all the operations recorded**: the storage keeps
the first `n`, and the buffer has those from the `f`-th on. -/
structure Tracks (t : Time) (base : State) (start : ℕ) (recorded : List Op) (f n : ℕ)
    (e : Engine R) : Prop where
  /-- The storage keeps the first `n`. -/
  keeps : ∃ store, e.store = some store ∧ Keeps R t base start recorded n store
  /-- The buffer has those from the `f`-th on. -/
  buffer : e.buffer = recorded.drop f
  /-- None is missing. -/
  le : f ≤ n
  /-- They are numbered one by one. -/
  numbered : NumberedLog.Numbered Op.sequence start recorded
  /-- Up to the number of the engine. -/
  sequence : e.sequence = start + recorded.length
  /-- The entries are what they make of the state last rebuilt. -/
  same : SameFrom t e.state (recorded.foldl Op.effect base)
  /-- The entries can be stored. -/
  storable : ∀ key entry, e.state.lookup key = some entry → entry.Storable
  /-- The invariant of the engine. -/
  sound : e.Sound
  /-- A closed engine has flushed its buffer. -/
  closed : e.closed = true → e.buffer = []

end Invariant

variable {R : Type} [LinearOrder R] [Zero R] [Strconv R]

/-- **The invariant of the world.** -/
def World.Safe (w : World R) : Prop :=
  0 ≤ w.clock ∧
    match w.phase with
    | .up e => ∃ start f n, w.durable ≤ f ∧ Tracks R w.clock w.base start w.recorded f n e
    | .down store => ∃ start n, w.durable ≤ n ∧ Keeps R w.clock w.base start w.recorded n store

section Steps

variable {t : Time} {base : State} {start f n : ℕ} {recorded : List Op} {e : Engine R}

omit [LinearOrder R] [Zero R] in
theorem Keeps.mono {store : Storage} (h : Keeps R t base start recorded n store) {t' : Time}
    (ht : t ≤ t') : Keeps R t' base start recorded n store := by
  obtain ⟨state, hreplays, hsame⟩ := h.contents
  exact ⟨h.le, h.valid, state, hreplays, hsame.mono ht⟩

theorem Tracks.mono (h : Tracks R t base start recorded f n e) {t' : Time} (ht : t ≤ t') :
    Tracks R t' base start recorded f n e := by
  obtain ⟨store, hstore, hkeeps⟩ := h.keeps
  exact { h with keeps := ⟨store, hstore, hkeeps.mono ht⟩, same := h.same.mono ht }

/-- What is in the buffer is past what is acknowledged, and a buffer that is
empty has been flushed to the end. -/
theorem Tracks.of_empty (h : Tracks R t base start recorded f n e) (hbuf : e.buffer = []) :
    n = recorded.length ∧ Tracks R t base start recorded n n e := by
  obtain ⟨store, hstore, hkeeps⟩ := h.keeps
  have hlen : recorded.length ≤ f := by
    have hdrop := h.buffer
    rw [hbuf] at hdrop
    exact List.drop_eq_nil_iff.mp hdrop.symm
  have hn : n = recorded.length := le_antisymm hkeeps.le (hlen.trans h.le)
  refine ⟨hn, { h with buffer := ?_, le := le_rfl }⟩
  rw [hbuf, hn, List.drop_length]

/-! ### Changes -/

/-- A change is one more operation recorded. -/
theorem Tracks.change {hi : Time} (h : Tracks R t base start recorded f n e) {e' : Engine R}
    (hchange : Engine.Change t hi e e')
    (hstorable : ∀ key entry, e'.state.lookup key = some entry → entry.Storable) :
    ∃ op, e'.buffer = e.buffer ++ [op] ∧ Tracks R t base start (recorded ++ [op]) f n e' := by
  obtain ⟨store, hstore, hkeeps⟩ := h.keeps
  have hne : e.store ≠ none := by rw [hstore]; exact nofun
  have hsound := hchange.sound h.sound
  obtain ⟨hstore', _, hclosed'⟩ := hchange.frame
  obtain ⟨op, hbuf, hseq, hop, hvalid, heffect⟩ := hchange.recorded hne
  have hfn : f ≤ recorded.length := h.le.trans hkeeps.le
  -- the entries change as the operation says
  have hstate : e'.state = op.effect e.state := by
    unfold Op.effect
    obtain ⟨hkind, entry, hins, hentry⟩ | ⟨hkind, hdel⟩ := heffect
    · have he := hentry (hstorable op.key entry (by rw [hins, Finmap.lookup_insert]))
      rw [if_pos hkind, he]
      exact hins
    · rw [if_neg (by rw [hkind]; decide)]
      exact hdel
  refine ⟨op, hbuf, ⟨store, hstore'.trans hstore, ?_⟩, ?_, h.le, ?_, ?_, ?_, hstorable, hsound,
    fun hcl => ?_⟩
  · obtain ⟨state, hreplays, hsame⟩ := hkeeps.contents
    refine ⟨hkeeps.le.trans (by simp), fun op' hop' => ?_, state, hreplays, ?_⟩
    · obtain hop' | hop' := List.mem_append.mp hop'
      · exact hkeeps.valid op' hop'
      · rw [List.mem_singleton.mp hop']
        exact hvalid
    · rwa [List.take_append_of_le_length hkeeps.le]
  · rw [hbuf, h.buffer, List.drop_append_of_le_length hfn]
  · refine NumberedLog.numbered_append.mpr ⟨h.numbered, ?_, trivial⟩
    rw [hop, h.sequence]
  · rw [hseq, h.sequence, List.length_append, List.length_singleton]
    rfl
  · rw [hstate, List.foldl_append]
    exact sameFrom_effect h.same op
  · exfalso
    rw [hclosed'] at hcl
    cases hchange with
    | put _ _ _ _ hcl' => rw [hcl] at hcl'; exact Bool.noConfusion hcl'
    | remove _ hcl' => rw [hcl] at hcl'; exact Bool.noConfusion hcl'

/-- Changes are more operations recorded. -/
theorem Tracks.changes {hi : Time} (h : Tracks R t base start recorded f n e) (ht : 0 ≤ t)
    {e' : Engine R} (hchanges : Engine.Changes t hi e e') :
    ∃ ops, e'.buffer = e.buffer ++ ops ∧ Tracks R t base start (recorded ++ ops) f n e' := by
  induction hchanges with
  | refl => exact ⟨[], (List.append_nil _).symm, by rwa [List.append_nil]⟩
  | tail _ hlast ih =>
    obtain ⟨ops, hbuf, htracks⟩ := ih
    obtain ⟨op, hbuf', htracks'⟩ := htracks.change hlast (hlast.storable ht htracks.storable)
    refine ⟨ops ++ [op], ?_, ?_⟩
    · rw [hbuf', hbuf, List.append_assoc]
    · rwa [← List.append_assoc]

/-! ### Storage calls -/

/-- A flush moves a part of the buffer to the storage, again or for the first
time, and the whole buffer if it returns nil. -/
theorem Tracks.flush (h : Tracks R t base start recorded f n e) (reply : Reply ℕ) :
    ∃ f' n', f ≤ f' ∧ Tracks R t base start recorded f' n' (e.flush reply).2
      ∧ ((e.flush reply).1 = .nil → f' = recorded.length)
      ∧ World.recordedBy e (e.flush reply).2 = [] := by
  obtain ⟨store, hstore, hkeeps⟩ := h.keeps
  obtain ⟨ended, reached, hnil, heq⟩ := Engine.flush_cases hstore reply
  obtain ⟨state, hreplays, hsame⟩ := hkeeps.contents
  have hfn : f ≤ recorded.length := h.le.trans hkeeps.le
  rw [heq]
  -- what the storage keeps now
  have hkeeps' : Keeps R t base start recorded (max n (min (f + reached) recorded.length))
      (store.appended (e.buffer.take reached)) := by
    refine ⟨max_le hkeeps.le (min_le_right _ _), hkeeps.valid,
      ((recorded.take (f + reached)).drop n).foldl Op.effect state, ?_, ?_⟩
    · rw [h.buffer]
      exact hreplays.appended h.numbered hkeeps.valid h.le hkeeps.le reached
    · rw [← NumberedLog.take_append_drop_take recorded (f + reached) hkeeps.le, List.foldl_append]
      exact sameFrom_foldl_effect hsame _
  by_cases hended : ended = .nil
  · have hreached : f + reached = recorded.length := by
      rw [hnil hended, h.buffer, List.length_drop]
      omega
    have hn' : max n (min (f + reached) recorded.length) = recorded.length := by
      have := hkeeps.le
      omega
    rw [hn'] at hkeeps'
    refine ⟨recorded.length, recorded.length, hfn, ⟨⟨_, rfl, hkeeps'⟩, ?_, le_rfl, h.numbered,
      h.sequence, h.same, h.storable, ⟨h.sound.good, h.sound.mirrors⟩, fun _ => if_pos hended⟩,
      fun _ => rfl, ?_⟩
    · show (if ended = .nil then [] else e.buffer) = _
      rw [if_pos hended, List.drop_length]
    · show (if ended = .nil then [] else e.buffer).drop e.buffer.length = []
      rw [if_pos hended, List.drop_nil]
  · refine ⟨f, _, le_rfl, ⟨⟨_, rfl, hkeeps'⟩, ?_, h.le.trans (le_max_left _ _), h.numbered,
      h.sequence, h.same, h.storable, ⟨h.sound.good, h.sound.mirrors⟩, fun hcl => ?_⟩,
      fun hc => absurd hc hended, ?_⟩
    · show (if ended = .nil then [] else e.buffer) = _
      rw [if_neg hended, h.buffer]
    · show (if ended = .nil then [] else e.buffer) = _
      rw [if_neg hended, h.closed hcl]
    · show (if ended = .nil then [] else e.buffer).drop e.buffer.length = []
      rw [if_neg hended, List.drop_length]

/-- The second part of a snapshot, on an engine whose buffer was flushed. -/
theorem Tracks.compact (h : Tracks R t base start recorded f n e) (hf : f = recorded.length)
    {store : Storage} (hstore : e.store = some store) (r : RangeOrder GoString)
    {now : GoString → Time} {t' : Time} (ht : t ≤ t') (hnow : ∀ key, now key ≤ t')
    (write clear : Reply Bool) :
    Tracks R t' base start recorded f n (e.compact r store now write clear).2 := by
  obtain ⟨store₀, hstore₀, hkeeps⟩ := h.keeps
  rw [hstore] at hstore₀
  cases hstore₀
  have hn : n = recorded.length := le_antisymm hkeeps.le (hf ▸ h.le)
  obtain ⟨state, hreplays, _⟩ := hkeeps.contents
  obtain ⟨ended, store', heq, hcases⟩ := Engine.compact_cases r e store now write clear
  rw [heq]
  -- what the snapshot holds looks as the entries do
  obtain ⟨state', hload, hstate'⟩ := loadSnapshot_snapshotOf h.sound.good r now
  have hvisible : ∀ key, state'.lookup key = visible (now key) e.state key := by
    intro key
    rw [hstate']
    cases hvis : visible (now key) e.state key with
    | none => rfl
    | some entry =>
      have hk := (Expiry.alive_eq_some_iff.mp hvis).1
      exact congrArg some
        (Entry.toEntry_toOp (h.sound.good key entry hk).1 (h.storable key entry hk))
  have hsame' : SameFrom t' state' ((recorded.take n).foldl Op.effect base) := by
    rw [hn, List.take_length]
    exact (sameFrom_of_visible hvisible hnow).trans (h.same.mono ht)
  have hseq : start + n = (e.snapshotOf r now).sequence := by
    rw [hn]
    exact h.sequence.symm
  obtain ⟨hkept, hcleared⟩ := hreplays.compacted hload (le_of_eq hseq)
  rw [← hseq] at hkept hcleared
  have hkeeps' : Keeps R t' base start recorded n store' := by
    obtain ⟨_, rfl⟩ | ⟨_, rfl⟩ | rfl := hcases
    · exact hkeeps.mono ht
    · exact ⟨hkeeps.le, hkeeps.valid, state', hkept, hsame'⟩
    · exact ⟨hkeeps.le, hkeeps.valid, state', hcleared, hsame'⟩
  exact ⟨⟨store', rfl, hkeeps'⟩, h.buffer, h.le, h.numbered, h.sequence, h.same.mono ht,
    h.storable, ⟨h.sound.good, h.sound.mirrors⟩, h.closed⟩

/-- A snapshot, up to its end. -/
theorem Tracks.snapshot (h : Tracks R t base start recorded f n e) (r : RangeOrder GoString)
    {now : GoString → Time} {t' : Time} (ht : t ≤ t') (hnow : ∀ key, now key ≤ t')
    (replies : Engine.SnapshotReplies) :
    ∃ f' n', f ≤ f' ∧ Tracks R t' base start recorded f' n' (e.snapshot r now replies).2
      ∧ ((e.snapshot r now replies).1 = .nil → f' = recorded.length)
      ∧ World.recordedBy e (e.snapshot r now replies).2 = [] := by
  obtain ⟨store, hstore, _⟩ := h.keeps
  obtain ⟨f', n', hf, htracks, hnil, hrec⟩ := h.flush replies.append
  obtain ⟨_, heq⟩ | ⟨store', hflushed, hstore', heq⟩ := Engine.snapshot_cases hstore r now replies
  · rw [heq]
    exact ⟨f', n', hf, htracks.mono ht, hnil, hrec⟩
  · have hlen := hnil hflushed
    have hcompact := htracks.compact hlen hstore' r ht hnow replies.write replies.clear
    obtain ⟨ended, store'', hcomp, _⟩ := Engine.compact_cases r (e.flush replies.append).2 store'
      now replies.write replies.clear
    rw [heq]
    refine ⟨f', n', hf, hcompact, fun _ => hlen, ?_⟩
    rw [hcomp]
    exact hrec

/-- `Close` is a flush, and nothing is left to flush once it has returned nil. -/
theorem Tracks.close (h : Tracks R t base start recorded f n e) (reply : Reply ℕ) :
    ∃ f' n', f ≤ f' ∧ Tracks R t base start recorded f' n' (e.close reply).2
      ∧ ((e.close reply).1 = .nil → f' = recorded.length)
      ∧ World.recordedBy e (e.close reply).2 = [] := by
  obtain ⟨hcl, heq⟩ | ⟨_, hne, heq⟩ | ⟨_, hnil, heq⟩ := Engine.close_cases e reply
  · obtain ⟨hn, htracks⟩ := h.of_empty (h.closed hcl)
    rw [heq]
    exact ⟨n, n, h.le, htracks, fun _ => hn, List.drop_length⟩
  · obtain ⟨f', n', hf, htracks, _, hrec⟩ := h.flush reply
    rw [heq]
    exact ⟨f', n', hf, htracks, fun hc => absurd hc hne, hrec⟩
  · obtain ⟨f', n', hf, htracks, hlen, hrec⟩ := h.flush reply
    have hbuf : (e.flush reply).2.buffer = [] := by
      rw [htracks.buffer, hlen hnil, List.drop_length]
    rw [heq]
    exact ⟨f', n', hf, { htracks with sound := ⟨htracks.sound.good, htracks.sound.mirrors⟩,
                                      closed := fun _ => hbuf }, fun _ => hlen hnil, hrec⟩

/-- `Restore`, in the middle of a run, reads back what the engine holds. -/
theorem Tracks.restore (h : Tracks R t base start recorded f n e) (r : RestoreOrders)
    {now : GoString → Time} {t' : Time} (ht : t ≤ t') (hnow : ∀ key, now key ≤ t')
    (fails : ReadFailures) :
    Tracks R t' base start recorded f n (e.restore r now fails).2
      ∧ World.recordedBy e (e.restore r now fails).2 = [] := by
  obtain ⟨_, heq⟩ | ⟨err, heq⟩ | ⟨store, state, sequence, index, hstore, _, hbuf, hreplays,
    hmirrors, heq⟩ := e.restore_cases r now fails
  · rw [heq]
    exact ⟨h.mono ht, List.drop_length⟩
  · rw [heq]
    exact ⟨h.mono ht, List.drop_length⟩
  · obtain ⟨store₀, hstore₀, hkeeps⟩ := h.keeps
    rw [hstore] at hstore₀
    cases hstore₀
    obtain ⟨hn, _⟩ := h.of_empty hbuf
    obtain ⟨state₀, hreplays₀, hsame⟩ := hkeeps.contents
    obtain ⟨rfl, rfl⟩ := hreplays.unique hreplays₀
    rw [heq]
    have hstate : ∀ key, (dropExpired r.expiry now state).lookup key
        = visible (now key) state key :=
      lookup_dropExpired r.expiry now state
    refine ⟨⟨⟨store, hstore, hkeeps.mono ht⟩, h.buffer, h.le, h.numbered, ?_, ?_, ?_,
      ⟨?_, hmirrors⟩, h.closed⟩, ?_⟩
    · show start + n = start + recorded.length
      rw [hn]
    · rw [hn, List.take_length] at hsame
      exact (sameFrom_of_visible hstate hnow).trans (hsame.mono ht)
    · intro key entry hk
      rw [show (e.restored r now state (start + n) index).state = dropExpired r.expiry now state
        from rfl, hstate] at hk
      exact hreplays.storable key entry (Expiry.alive_eq_some_iff.mp hk).1
    · refine hreplays.good.of_sub (fun key entry hk => ?_)
      rw [show (e.restored r now state (start + n) index).state = dropExpired r.expiry now state
        from rfl, hstate] at hk
      exact (Expiry.alive_eq_some_iff.mp hk).1
    · show e.buffer.drop e.buffer.length = []
      rw [List.drop_length]

/-! ### Calls -/

/-- Only the calls that make storage calls say how they ended. -/
theorem usesStorage_of_ended {c : Call} {how : Return} (h : (e.call c).1 = .ended how) :
    c.UsesStorage := by
  cases c with
  | flush reply => trivial
  | snapshot r now replies => trivial
  | restore r now fails => trivial
  | close reply => trivial
  | _ => cases h

/-- **A call**: what it records is recorded, and where it returns nil after a
flush nothing is left in the buffer. -/
theorem Tracks.call (h : Tracks R t base start recorded f n e) (ht : 0 ≤ t) {c : Call}
    {t' : Time} (hw : c.Within t t') :
    ∃ f' n', f ≤ f'
      ∧ Tracks R t' base start (recorded ++ World.recordedBy e (e.call c).2) f' n' (e.call c).2
      ∧ ((e.call c).1 = .ended .nil →
          f' = (recorded ++ World.recordedBy e (e.call c).2).length) := by
  by_cases hc : c.UsesStorage
  · -- a storage call records nothing
    have hsame : ∀ {e' : Engine R}, World.recordedBy e e' = [] →
        recorded ++ World.recordedBy e e' = recorded := fun hrec => by
      rw [hrec, List.append_nil]
    cases c with
    | flush reply =>
      obtain ⟨f', n', hf, htracks, hnil, hrec⟩ := h.flush reply
      rw [show recorded ++ World.recordedBy e (e.call (.flush reply)).2 = _ from hsame hrec]
      exact ⟨f', n', hf, htracks.mono hw.1, fun ha => hnil (Answer.ended.inj ha)⟩
    | snapshot r now replies =>
      have hnow : ∀ key, now key ≤ t' := fun key => (hw.2 _ ⟨key, rfl⟩).2
      obtain ⟨f', n', hf, htracks, hnil, hrec⟩ := h.snapshot r hw.1 hnow replies
      rw [show recorded ++ World.recordedBy e (e.call (.snapshot r now replies)).2 = _
        from hsame hrec]
      exact ⟨f', n', hf, htracks, fun ha => hnil (Answer.ended.inj ha)⟩
    | restore r now fails =>
      have hnow : ∀ key, now key ≤ t' := fun key => (hw.2 _ ⟨key, rfl⟩).2
      obtain ⟨htracks, hrec⟩ := h.restore r hw.1 hnow fails
      rw [show recorded ++ World.recordedBy e (e.call (.restore r now fails)).2 = _
        from hsame hrec]
      exact ⟨f, n, le_rfl, htracks, nofun⟩
    | close reply =>
      obtain ⟨f', n', hf, htracks, hnil, hrec⟩ := h.close reply
      rw [show recorded ++ World.recordedBy e (e.call (.close reply)).2 = _ from hsame hrec]
      exact ⟨f', n', hf, htracks.mono hw.1, fun ha => hnil (Answer.ended.inj ha)⟩
    | _ => exact hc.elim
  · obtain ⟨ops, hbuf, htracks⟩ := h.changes ht (Engine.call_changes hc hw)
    have hrec : World.recordedBy e (e.call c).2 = ops := by
      rw [World.recordedBy, hbuf, List.drop_left]
    rw [hrec]
    exact ⟨f, n, le_rfl, htracks.mono hw.1, fun ha => absurd (usesStorage_of_ended ha) hc⟩

/-! ### Starts -/

/-- **A start**: the engine holds what the storage keeps and has not expired. -/
theorem Keeps.started {store : Storage} (h : Keeps R t base start recorded n store)
    {abs : GoString → Except Err GoString} {cfg : Config} {r : RestoreOrders}
    {now : GoString → Time} {fails : ReadFailures}
    (hnew : Engine.newWithStorage abs (some store) cfg r now fails = .ok e) {t' : Time}
    (hnow : ∀ key, now key ≤ t') : Tracks R t' e.state (start + n) [] 0 0 e := by
  obtain ⟨_, state, sequence, index, hreplays, hmirrors, rfl⟩ :=
    Engine.newWithStorage_restored hnew
  obtain ⟨state₀, hreplays₀, _⟩ := h.contents
  obtain ⟨rfl, rfl⟩ := hreplays.unique hreplays₀
  refine ⟨⟨store, rfl, le_rfl, fun _ hop => absurd hop List.not_mem_nil, state, hreplays, ?_⟩,
    rfl, le_rfl, trivial, rfl, Expiry.AgreeFrom.refl, fun key entry hk =>
      hreplays.storable key entry (lookup_of_dropExpired hk),
    Engine.restored_sound _ hreplays hmirrors, fun _ => rfl⟩
  exact (sameFrom_of_visible (lookup_dropExpired r.expiry now state) hnow).symm

end Steps

/-! ## The theorem -/

namespace World

/-- The invariant holds before the first start. -/
theorem safe_init {t : Time} (ht : 0 ≤ t) : (init t : World R).Safe :=
  ⟨ht, 0, 0, le_rfl, le_rfl, fun _ hop => absurd hop List.not_mem_nil, ∅, Storage.replays_empty,
    Expiry.AgreeFrom.refl⟩

/-- **Every event keeps the invariant.** -/
theorem safe_step {w : World R} {event : Happening} (hadm : w.admits event) (hw : w.Safe) :
    (w.step event).2.Safe := by
  obtain ⟨ht, hphase⟩ := hw
  cases event with
  | call c before =>
    obtain ⟨⟨e, he⟩, hwithin⟩ := hadm
    rw [he] at hphase
    obtain ⟨start, f, n, hdur, htracks⟩ := hphase
    obtain ⟨f', n', hf, htracks', hnil⟩ := htracks.call ht hwithin
    unfold step
    rw [he]
    refine ⟨ht.trans hwithin.1, ?_⟩
    dsimp only
    have hdur' : (if (e.call c).1 = .ended .nil
        then (w.recorded ++ recordedBy e (e.call c).2).length else w.durable) ≤ f' := by
      split_ifs with hended
      · exact (hnil hended).ge
      · exact hdur.trans hf
    by_cases hstop : (e.call c).1 = .ended .stopped
    · obtain ⟨store, hstore, hkeeps⟩ := htracks'.keeps
      rw [if_pos hstop, hstore]
      exact ⟨start, n', hdur'.trans htracks'.le, hkeeps⟩
    · rw [if_neg hstop]
      exact ⟨start, f', n', hdur', htracks'⟩
  | stop =>
    unfold step
    cases hp : w.phase with
    | down store =>
      dsimp only
      rw [hp] at hphase
      exact ⟨ht, by rw [hp]; exact hphase⟩
    | up e =>
      rw [hp] at hphase
      obtain ⟨start, f, n, hdur, htracks⟩ := hphase
      obtain ⟨store, hstore, hkeeps⟩ := htracks.keeps
      refine ⟨ht, ?_⟩
      dsimp only
      rw [hstore]
      exact ⟨start, n, hdur.trans htracks.le, hkeeps⟩
  | start abs cfg r now fails before =>
    obtain ⟨⟨store, hp⟩, hbefore, hnow⟩ := hadm
    rw [hp] at hphase
    obtain ⟨start, n, hdur, hkeeps⟩ := hphase
    unfold step
    rw [hp]
    dsimp only
    cases hnew : Engine.newWithStorage (R := R) abs (some store) cfg r now fails with
    | error err =>
      exact ⟨ht.trans hbefore, start, n, hdur, hkeeps.mono hbefore⟩
    | ok e =>
      exact ⟨ht.trans hbefore, start + n, 0, 0, le_rfl,
        hkeeps.started hnew (fun key => (hnow key).2)⟩

/-- **Crash durability.** Over any run from an empty storage – calls, stops in
and between calls, storage calls that fail in any pattern, restarts – with a
clock that starts after 1970 and never goes back: whenever the process is down,
`NewWithStorage` succeeds if the two reads do, and the state it rebuilds is what
has not expired of what some prefix of the operations recorded since the last
start makes of the state rebuilt then, a prefix that has every operation
recorded before the last `Flush`, `Snapshot` or `Close` that returned nil. -/
theorem durability {t : Time} (ht : 0 ≤ t) {events : List Happening}
    (hrun : system.Admits (init t : World R) events) {store : Storage}
    (hdown : (system.after (init t : World R) events).phase = .down store)
    {abs : GoString → Except Err GoString} {cfg : Config} (hcfg : cfg.validate abs = .ok ())
    (r : RestoreOrders) {now : GoString → Time}
    (hnow : ∀ key, (system.after (init t : World R) events).clock ≤ now key) :
    ∃ e n state,
      Engine.newWithStorage (R := R) abs (some store) cfg r now {} = .ok e
        ∧ (system.after (init t : World R) events).durable ≤ n
        ∧ n ≤ (system.after (init t : World R) events).recorded.length
        ∧ ((system.after (init t : World R) events).recorded.take n).foldlM (applyOp R)
            (system.after (init t : World R) events).base = .ok state
        ∧ ∀ key, e.state.lookup key = visible (now key) state key := by
  have hsafe : (system.after (init t : World R) events).Safe :=
    hrun.invariant (safe_init ht) (fun w event hadm hw => safe_step hadm hw)
  generalize system.after (init t : World R) events = w at hdown hnow hsafe
  obtain ⟨_, hphase⟩ := hsafe
  rw [hdown] at hphase
  obtain ⟨start, n, hdur, hkeeps⟩ := hphase
  obtain ⟨state, hreplays, hsame⟩ := hkeeps.contents
  obtain ⟨e, hnew, hstate, _⟩ := Engine.newWithStorage_of_replays r now hcfg hreplays
  refine ⟨e, n, (w.recorded.take n).foldl Op.effect w.base, hnew, hdur, hkeeps.le,
    foldlM_applyOp (fun op hop => hkeeps.valid op (List.mem_of_mem_take hop)) _, fun key => ?_⟩
  rw [hstate, lookup_dropExpired]
  exact hsame (now key) (hnow key) key

/-- A run in which a flush fails half-way and is retried, and the process stops
between the two halves of a snapshot. -/
def crashedRun : List Happening :=
  [.start Except.ok Config.default RestoreOrders.sorted (fun _ => 0) {} 0,
    .call (.set (str "a") (str "1") true 0 1) 1, .call (.set (str "b") (str "x") false 6 1) 1,
    .call (.flush (.fail 1)) 2, .call (.flush .ok) 3,
    .call (.snapshot RangeOrder.sorted (fun _ => 4) { clear := .stop false }) 5]

/-- The storage that run leaves: the first operation is twice in the journal, and
all of the journal is in the snapshot. -/
def crashedStorage : Storage where
  journal :=
    [{ sequence := 1, kind := kindSet, key := str "a", value := str "1", isNumber := true,
       expiresAt := 0 },
     { sequence := 1, kind := kindSet, key := str "a", value := str "1", isNumber := true,
       expiresAt := 0 },
     { sequence := 2, kind := kindSet, key := str "b", value := str "x", isNumber := false,
       expiresAt := 7 }]
  snapshot :=
    { sequence := 2
      entries := (Finmap.insert (str "b")
        { sequence := 0, kind := kindSet, key := str "b", value := str "x", isNumber := false,
          expiresAt := 7 } (Finmap.insert (str "a")
        { sequence := 0, kind := kindSet, key := str "a", value := str "1", isNumber := true,
          expiresAt := 0 } ∅)) }

/-- The restart after that run, at an instant at which one key has expired. -/
theorem durability_crashedRun : ∃ e n state,
    Engine.newWithStorage (R := ℕ) Except.ok (some crashedStorage) Config.default
        RestoreOrders.sorted (fun _ => 10) {} = .ok e
      ∧ (system.after (init 0 : World ℕ) crashedRun).durable ≤ n
      ∧ n ≤ (system.after (init 0 : World ℕ) crashedRun).recorded.length
      ∧ ((system.after (init 0 : World ℕ) crashedRun).recorded.take n).foldlM (applyOp ℕ)
          (system.after (init 0 : World ℕ) crashedRun).base = .ok state
      ∧ ∀ key, e.state.lookup key = visible 10 state key := by
  have hat : ∀ {c : Call} {lo now hi : Time}, (∀ t, c.Reads t → t = now) → lo ≤ now → now ≤ hi →
      c.Within lo hi := Call.within_of_reads
  have hadm : system.Admits (init 0 : World ℕ) crashedRun := by
    refine ⟨⟨⟨_, rfl⟩, le_rfl, fun _ => ⟨le_rfl, le_rfl⟩⟩, ⟨⟨_, rfl⟩, hat (fun _ h => h) ?_ ?_⟩,
      ⟨⟨_, rfl⟩, hat (fun _ h => h) ?_ ?_⟩, ⟨⟨_, rfl⟩, ?_, fun _ h => h.elim⟩,
      ⟨⟨_, rfl⟩, ?_, fun _ h => h.elim⟩, ⟨⟨_, rfl⟩, hat (fun _ ⟨_, h⟩ => h) ?_ ?_⟩, trivial⟩
    all_goals decide
  exact durability le_rfl hadm rfl rfl RestoreOrders.sorted (fun _ => by decide)

end World

end WasmRedis
