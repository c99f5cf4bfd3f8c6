import WasmRedis.Changes
import WasmRedis.Foundation.Expiry
import WasmRedis.Foundation.NumberedLog
import WasmRedis.IndexContents

/-!
# What Restore reads back

`Restore` runs four loops, over the snapshot, over the journal, over the state
to drop what has expired, and over the state to rebuild the index. This module
gives one equation or one rule for each of them, and from these the rule for
the whole: `contents` is the state and the number that the first two loops
reach, and a restored engine holds the part of it that has not expired.

An operation comes back as the entry it was recorded from because a deadline
survives its trip through the 64 bits it is stored in (`Entry.Storable`). All
deadlines that `set` lets through do, but for one: the instant `0`, which is
stored as no deadline at all, and which a clock after 1970 never gives.
-/

namespace WasmRedis

open GoString

/-! ## Deadlines -/

namespace Time

@[simp] theorem toStored_zero : toStored zero = 0 := by decide

@[simp] theorem ofStored_zero : ofStored 0 = zero := by decide

/-- A stored deadline is an instant of the 64 bits, none of which is the zero
time. -/
theorem unix_ne_zero (nanoseconds : Int64) : unix nanoseconds ≠ zero := by
  have hzero : zero < -2 ^ 63 := by decide
  exact ne_of_gt (lt_of_lt_of_le hzero (Int64.le_toInt nanoseconds))

/-- The instants that survive the 64 bits. -/
theorem unix_unixNano_iff (t : Time) : unix (unixNano t) = t ↔ -2 ^ 63 ≤ t ∧ t < 2 ^ 63 := by
  unfold unix unixNano
  constructor
  · intro h
    rw [← h]
    exact ⟨Int64.le_toInt _, Int64.toInt_lt _⟩
  · rintro ⟨hlo, hhi⟩
    exact Int64.toInt_ofInt_of_le hlo hhi

/-- What is stored is read back and stored again the same. -/
theorem toStored_ofStored (nanoseconds : Int64) :
    toStored (ofStored nanoseconds) = nanoseconds := by
  unfold ofStored
  split_ifs with h0
  · rw [toStored_zero, h0]
  · unfold toStored isZero
    rw [decide_eq_false (unix_ne_zero nanoseconds)]
    exact Int64.ofInt_toInt nanoseconds

/-- **An instant of the 64 bits survives storage unless it is the instant `0`**,
which stands for none there. -/
theorem ofStored_toStored_iff {t : Time} (hrange : unix (unixNano t) = t) :
    ofStored (toStored t) = t ↔ t ≠ 0 := by
  have hz : isZero t = false := decide_eq_false (hrange ▸ unix_ne_zero _)
  unfold toStored
  rw [hz]
  show ofStored (unixNano t) = t ↔ _
  unfold ofStored
  split_ifs with h0
  · have ht : t = 0 := by rw [← hrange, h0]; rfl
    rw [ht]
    exact iff_of_false (by decide) (not_not.mpr rfl)
  · refine iff_of_true hrange (fun ht => h0 ?_)
    rw [ht]
    rfl

end Time

/-- The deadline of the entry is read back as it was stored. -/
def Entry.Storable (entry : Entry) : Prop :=
  Time.ofStored (Time.toStored entry.expiresAt) = entry.expiresAt

/-- **The deadlines `set` lets through are storable**, but for the instant `0`. -/
theorem ofStored_toStored_deadline {ttl : ℤ} {now : Time} (h0 : Engine.deadline ttl now ≠ 0)
    (hrange : 0 < ttl →
      Time.unix (Time.unixNano (Engine.deadline ttl now)) = Engine.deadline ttl now) :
    Time.ofStored (Time.toStored (Engine.deadline ttl now)) = Engine.deadline ttl now := by
  by_cases hpos : 0 < ttl
  · exact (Time.ofStored_toStored_iff (hrange hpos)).mpr h0
  · rw [Engine.deadline, if_neg hpos, Time.toStored_zero, Time.ofStored_zero]

/-- After 1970 no deadline is the instant `0`. -/
theorem deadline_ne_zero {ttl : ℤ} {now : Time} (hnow : 0 ≤ now) : Engine.deadline ttl now ≠ 0 := by
  unfold Engine.deadline
  split_ifs with hpos
  · exact (add_pos_of_nonneg_of_pos hnow hpos).ne'
  · decide

/-- An expired entry stays expired. -/
theorem expired_lasting : Expiry.Lasting (fun t entry => expired entry t) := by
  intro t t' entry ht hx
  unfold expired at hx ⊢
  rw [Bool.and_eq_true, Bool.not_eq_true', Bool.not_eq_true', decide_eq_false_iff_not] at hx ⊢
  exact ⟨hx.1, fun hlt => hx.2 (lt_of_le_of_lt ht hlt)⟩

/-- What a reader at the instant `t` sees of a state. -/
abbrev visible (t : Time) (state : State) (key : GoString) : Option Entry :=
  Expiry.alive (fun t entry => expired entry t) t state key

theorem visible_of_lookup {t : Time} {state : State} {key : GoString} {entry : Entry}
    (h : state.lookup key = some entry) :
    visible t state key = if expired entry t then none else some entry := by
  unfold visible Expiry.alive
  rw [h, Option.filter_some]
  by_cases hx : expired entry t = true <;> simp [hx]

theorem visible_of_none {t : Time} {state : State} {key : GoString}
    (h : state.lookup key = none) : visible t state key = none := by
  unfold visible Expiry.alive
  rw [h, Option.filter_none]

/-- **`Get`** returns the value of the entry that is visible. -/
theorem Engine.get_eq {R : Type} [LinearOrder R] (e : Engine R) (key : GoString) (t : Time) :
    (e.get key t).1
      = ((visible t e.state key).map (fun entry => Except.ok entry.value)).getD
        (.error .notFound) := by
  unfold get getEntry
  cases hk : e.state.lookup key with
  | none =>
    rw [visible_of_none hk]
    rfl
  | some entry =>
    rw [visible_of_lookup hk]
    dsimp only
    cases expired entry t <;> rfl

/-- The two states look the same from the instant `t` on. -/
abbrev SameFrom (t : Time) (state state' : State) : Prop :=
  Expiry.AgreeFrom (fun t entry => expired entry t) t state state'

/-- What is left of a state after what had expired was dropped, at an instant
read for each key, looks the same from any later instant on. -/
theorem sameFrom_of_visible {t : Time} {now : GoString → Time} {state state' : State}
    (h : ∀ key, state'.lookup key = visible (now key) state key) (hnow : ∀ key, now key ≤ t) :
    SameFrom t state' state := by
  refine Expiry.AgreeFrom.of_dropped (fun key => ?_) expired_lasting
  cases hk : state.lookup key with
  | none => exact Or.inl (by rw [h, visible_of_none hk])
  | some entry =>
    cases hx : expired entry (now key) with
    | false => exact Or.inl (by rw [h, visible_of_lookup hk, hx]; rfl)
    | true =>
      refine Or.inr ⟨by rw [h, visible_of_lookup hk, hx]; rfl, fun b hb => ?_⟩
      cases hb
      exact expired_lasting _ _ entry (hnow key) hx

/-! ## Operations -/

section Operations

variable (R : Type) [Strconv R]

/-- The operations `applyOp` accepts. -/
def Op.Valid (op : Op) : Prop :=
  op.kind = kindSet ∧ (op.isNumber = true → Strconv.isFiniteNumber R op.value = true)
    ∨ op.kind = kindDelete

/-- What a valid operation does to a state. -/
def Op.effect (state : State) (op : Op) : State :=
  if op.kind = kindSet then state.insert op.key op.toEntry else state.erase op.key

/-- The states the engine holds: every entry is under its own key, and what is
flagged a number is a finite one. -/
def State.Good (state : State) : Prop :=
  ∀ key entry, state.lookup key = some entry →
    entry.key = key ∧ (entry.isNumber = true → Strconv.isFiniteNumber R entry.value = true)

variable {R}

/-- `applyOp` accepts exactly the valid operations. -/
theorem applyOp_ok_iff {state state' : State} {op : Op} :
    applyOp R state op = .ok state' ↔ op.Valid R ∧ state' = op.effect state := by
  unfold applyOp Op.Valid Op.effect
  have hkinds : kindSet ≠ kindDelete := by decide
  by_cases hs : op.kind = kindSet
  · rw [if_pos hs, if_pos hs]
    have hd : op.kind ≠ kindDelete := fun hd => hkinds (hs.symm.trans hd)
    by_cases hbad : (op.isNumber && !Strconv.isFiniteNumber R op.value) = true
    · rw [if_pos hbad]
      rw [Bool.and_eq_true, Bool.not_eq_true'] at hbad
      refine ⟨nofun, fun ⟨hv, _⟩ => ?_⟩
      rcases hv with ⟨_, hnum⟩ | hdel
      · rw [hnum hbad.1] at hbad
        exact Bool.noConfusion hbad.2
      · exact absurd hdel hd
    · rw [if_neg hbad]
      refine ⟨fun h => ⟨Or.inl ⟨hs, fun hn => ?_⟩, (Except.ok.inj h).symm⟩,
        fun ⟨_, h⟩ => congrArg _ h.symm⟩
      rw [Bool.and_eq_true, Bool.not_eq_true', not_and, Bool.not_eq_false] at hbad
      exact hbad hn
  · rw [if_neg hs, if_neg hs]
    by_cases hd : op.kind = kindDelete
    · rw [if_pos hd]
      exact ⟨fun h => ⟨Or.inr hd, (Except.ok.inj h).symm⟩, fun ⟨_, h⟩ => congrArg _ h.symm⟩
    · rw [if_neg hd]
      refine ⟨nofun, fun ⟨hv, _⟩ => ?_⟩
      rcases hv with ⟨hset, _⟩ | hdel
      · exact absurd hset hs
      · exact absurd hdel hd

theorem Op.Valid.applyOp {op : Op} (h : op.Valid R) (state : State) :
    applyOp R state op = .ok (op.effect state) := applyOp_ok_iff.mpr ⟨h, rfl⟩

/-- Valid operations are applied one after the other. -/
theorem foldlM_applyOp {ops : List Op} (h : ∀ op ∈ ops, op.Valid R) (state : State) :
    ops.foldlM (applyOp R) state = .ok (ops.foldl Op.effect state) := by
  induction ops generalizing state with
  | nil => rfl
  | cons op ops ih =>
    rw [List.foldlM_cons, (h op List.mem_cons_self).applyOp, List.foldl_cons]
    exact ih (fun op' hop' => h op' (List.mem_cons_of_mem _ hop')) _

/-- The same operation keeps two states looking the same. -/
theorem sameFrom_effect {t : Time} {state state' : State} (h : SameFrom t state state')
    (op : Op) : SameFrom t (op.effect state) (op.effect state') := by
  unfold Op.effect
  split_ifs
  · exact h.insert _ _
  · exact h.erase _

theorem sameFrom_foldl_effect {t : Time} {state state' : State} (h : SameFrom t state state')
    (ops : List Op) : SameFrom t (ops.foldl Op.effect state) (ops.foldl Op.effect state') := by
  induction ops generalizing state state' with
  | nil => exact h
  | cons op ops ih => exact ih (sameFrom_effect h op)

theorem State.good_empty : State.Good R ∅ := by
  intro key entry h
  rw [Finmap.lookup_empty] at h
  cases h

theorem State.Good.insert {state : State} (h : state.Good R) {entry : Entry}
    (hnum : entry.isNumber = true → Strconv.isFiniteNumber R entry.value = true) :
    State.Good R (Finmap.insert entry.key entry state) := by
  intro key entry' hk
  by_cases hkk : key = entry.key
  · rw [hkk, Finmap.lookup_insert] at hk
    cases hk
    exact ⟨hkk.symm, hnum⟩
  · rw [Finmap.lookup_insert_of_ne _ hkk] at hk
    exact h key entry' hk

/-- A state of which some entries were removed is good. -/
theorem State.Good.of_sub {state state' : State} (h : state.Good R)
    (hsub : ∀ key entry, state'.lookup key = some entry → state.lookup key = some entry) :
    state'.Good R := fun key entry hk => h key entry (hsub key entry hk)

theorem lookup_erase_sub {state : State} {k key : GoString} {entry : Entry}
    (h : (state.erase k).lookup key = some entry) : state.lookup key = some entry := by
  by_cases hk : key = k
  · rw [hk, Finmap.lookup_erase] at h
    cases h
  · rwa [Finmap.lookup_erase_ne hk] at h

end Operations

/-- The SET of an entry gives the entry back. -/
theorem Entry.toEntry_toOp {key : GoString} {entry : Entry} (hkey : entry.key = key)
    (h : entry.Storable) : (entry.toOp key).toEntry = entry := by
  unfold Entry.toOp Op.toEntry
  dsimp only
  rw [h, ← hkey]

/-! ## The four loops -/

section Loops

variable {R : Type} [LinearOrder R] [Zero R] [Strconv R]

omit [LinearOrder R] [Zero R] in
/-- The loop over a snapshot of valid entries puts each of them under its key. -/
theorem loadSnapshot_of_valid (r : RangeOrder GoString) {entries : GoMap GoString Op}
    (hvalid : ∀ key op, entries.lookup key = some op →
      op.kind = kindSet ∧ op.key = key ∧ op.Valid R) :
    ∃ state, loadSnapshot R r entries = .ok state
      ∧ ∀ key, state.lookup key = (entries.lookup key).map Op.toEntry := by
  refine ⟨_, GoMap.range_eq_rangeFold r entries ∅
    (f := fun state key op => state.insert key op.toEntry) (fun state key op hk => ?_),
    fun key => ?_⟩
  · obtain ⟨hkind, hkey, hop⟩ := hvalid key op hk
    rw [if_neg (by rintro (h | h); exacts [h hkind, h hkey]), hop.applyOp, Op.effect,
      if_pos hkind, hkey]
  · rw [GoMap.lookup_rangeFold r entries ∅ (f := fun _ op _ => some op.toEntry)
      (fun s k op => Finmap.lookup_insert _)
      (fun s k op k' hne => Finmap.lookup_insert_of_ne _ hne)]
    cases entries.lookup key with
    | none => rw [Finmap.lookup_empty]; rfl
    | some op => rfl

omit [LinearOrder R] [Zero R] in
/-- **The loop over the snapshot.** It succeeds where every entry is a valid
SET under its own key, and gives the entries read back, in any order. -/
theorem loadSnapshot_ok_iff {r : RangeOrder GoString} {entries : GoMap GoString Op}
    {state : State} :
    loadSnapshot R r entries = .ok state ↔
      (∀ key op, entries.lookup key = some op → op.kind = kindSet ∧ op.key = key ∧ op.Valid R)
        ∧ ∀ key, state.lookup key = (entries.lookup key).map Op.toEntry := by
  constructor
  · intro h
    have hvalid : ∀ key op, entries.lookup key = some op →
        op.kind = kindSet ∧ op.key = key ∧ op.Valid R := by
      intro key op hk
      obtain ⟨s₁, s₂, hbody⟩ := GoMap.range_ok_body h key op hk
      split_ifs at hbody with hbad
      rw [not_or, not_not, not_not] at hbad
      exact ⟨hbad.1, hbad.2, (applyOp_ok_iff.mp hbody).1⟩
    obtain ⟨state', hload, hstate'⟩ := loadSnapshot_of_valid r hvalid
    rw [h] at hload
    rw [Except.ok.inj hload]
    exact ⟨hvalid, hstate'⟩
  · rintro ⟨hvalid, hstate⟩
    obtain ⟨state', hload, hstate'⟩ := loadSnapshot_of_valid r hvalid
    rw [hload, Finmap.ext_lookup (fun key => (hstate' key).trans (hstate key).symm)]

/-- The errors of the journal loop. -/
def faultErr : NumberedLog.Fault Err → Err
  | .zero => .new (str "séquence du journal invalide")
  | .gap => .new (str "séquence du journal interrompue")
  | .apply err => err

omit [LinearOrder R] [Zero R] in
/-- **The loop over the journal** is the replay of a numbered log: from the
snapshot's number on, its own test for what the snapshot includes is never the
one that decides. -/
theorem replay_eq {base : ℕ} {ops : List Op} {state : State} {sequence : ℕ}
    (h : base ≤ sequence) :
    replay R base ops state sequence
      = (NumberedLog.replay Op.sequence (applyOp R) ops state sequence).mapError faultErr := by
  induction ops generalizing state sequence with
  | nil => rfl
  | cons op ops ih =>
    unfold replay NumberedLog.replay
    split_ifs with h0 hb hle hgap hle' hgap'
    · rfl
    · exact ih h
    · omega
    · omega
    · exact ih h
    · rfl
    · cases applyOp R state op with
      | error err => rfl
      | ok state' => exact ih (by omega)

omit [LinearOrder R] [Zero R] in
theorem replay_ok_iff {base : ℕ} {ops : List Op} {state : State} {sequence : ℕ}
    (h : base ≤ sequence) {c : State × ℕ} :
    replay R base ops state sequence = .ok c
      ↔ NumberedLog.replay Op.sequence (applyOp R) ops state sequence = .ok c := by
  rw [replay_eq h]
  cases NumberedLog.replay Op.sequence (applyOp R) ops state sequence with
  | error err => exact ⟨nofun, nofun⟩
  | ok c' =>
    exact ⟨fun h => congrArg _ (Except.ok.inj h), fun h => congrArg _ (Except.ok.inj h)⟩

/-- **The loop that drops what has expired**, at the instant it reads for each
entry. -/
theorem lookup_dropExpired (r : RangeOrder GoString) (now : GoString → Time) (state : State)
    (key : GoString) :
    (dropExpired r now state).lookup key = visible (now key) state key := by
  unfold dropExpired
  rw [GoMap.lookup_rangeFold r state state
    (f := fun key entry kept => if expired entry (now key) then none else kept)
    (fun s k entry => by
      cases expired entry (now k)
      · rfl
      · exact Finmap.lookup_erase _ _)
    (fun s k entry k' hne => by
      cases expired entry (now k)
      · rfl
      · exact Finmap.lookup_erase_ne hne)]
  cases hk : state.lookup key with
  | none => rw [visible_of_none hk]
  | some entry => rw [visible_of_lookup hk]

/-- What is left was there. -/
theorem lookup_of_dropExpired {r : RangeOrder GoString} {now : GoString → Time} {state : State}
    {key : GoString} {entry : Entry} (h : (dropExpired r now state).lookup key = some entry) :
    state.lookup key = some entry := by
  rw [lookup_dropExpired, Expiry.alive_eq_some_iff] at h
  exact h.1

/-- An index mirrors a state: it knows its keys, each with the normalised value
of its entry. -/
structure Index.Mirrors (idx : Index R) (state : State) : Prop where
  /-- The structures of the index agree. -/
  holds : idx.Holds
  /-- And they hold the state. -/
  entries : ∀ key, idx.entries.lookup key
    = (state.lookup key).map (fun entry => normalised R entry.value entry.isNumber)

/-- **The loop that rebuilds the index.** -/
theorem buildIndex_mirrors (r : RangeOrder GoString) (degree : ℤ) {state : State}
    (hnum : ∀ key entry, state.lookup key = some entry → entry.isNumber = true →
      Strconv.isFiniteNumber R entry.value = true) :
    ∃ idx : Index R, buildIndex r degree state = .ok idx ∧ idx.Mirrors state := by
  have hloop : ∃ idx : Index R, buildIndex r degree state = .ok idx ∧ idx.Holds
      ∧ ∀ key, idx.entries.lookup key = if key ∈ r.list state.keys then
          (state.lookup key).map (fun entry => normalised R entry.value entry.isNumber)
        else none := by
    refine GoMap.range_induction r state (P := fun done (idx : Index R) => idx.Holds
      ∧ ∀ key, idx.entries.lookup key = if key ∈ done then
          (state.lookup key).map (fun entry => normalised R entry.value entry.isNumber)
        else none) ⟨Index.new_holds degree, fun key => ?_⟩ (fun done k entry idx hk hlook hP => ?_)
    · rw [Index.new_entries, Finmap.lookup_empty, if_neg List.not_mem_nil]
    · obtain ⟨hholds, hent⟩ := hP
      obtain ⟨idx', hset, hholds', hent'⟩ := hholds.set k (hnum k entry hlook)
      refine ⟨idx', hset, hholds', fun key => ?_⟩
      rw [hent']
      by_cases hkk : key = k
      · rw [hkk, Finmap.lookup_insert, if_pos (by simp), hlook]
        rfl
      · rw [Finmap.lookup_insert_of_ne _ hkk, hent key]
        simp [hkk]
  obtain ⟨idx, hidx, hholds, hent⟩ := hloop
  refine ⟨idx, hidx, hholds, fun key => ?_⟩
  rw [hent key]
  split_ifs with hmem
  · rfl
  · cases hk : state.lookup key with
    | none => rfl
    | some entry => exact absurd ((GoMap.mem_order r state key).mpr ⟨entry, hk⟩) hmem

end Loops

/-! ## The contents of a storage -/

section Contents

variable (R : Type) [Strconv R]

/-- The state and the number that the first two loops of `Restore` reach. -/
def Storage.contents (r : RangeOrder GoString) (store : Storage) : Except Err (State × ℕ) :=
  match loadSnapshot R r store.snapshot.entries with
  | .error err => .error err
  | .ok state => replay R store.snapshot.sequence store.journal state store.snapshot.sequence

/-- The storage holds a state, and includes the operations up to a number. -/
def Storage.Replays (store : Storage) (state : State) (sequence : ℕ) : Prop :=
  ∀ r, store.contents R r = .ok (state, sequence)

variable {R}

/-- **The contents of a storage do not depend on the order** in which the
snapshot is visited. -/
theorem Storage.replays_of_contents {r : RangeOrder GoString} {store : Storage} {state : State}
    {sequence : ℕ} (h : store.contents R r = .ok (state, sequence)) :
    store.Replays R state sequence := by
  intro r'
  unfold contents at h ⊢
  cases hload : loadSnapshot R r store.snapshot.entries with
  | error err =>
    rw [hload] at h
    cases h
  | ok state₀ =>
    rw [loadSnapshot_ok_iff.mpr (loadSnapshot_ok_iff.mp hload)]
    rwa [hload] at h

/-- What a storage replays: a snapshot, and a numbered log over it. -/
theorem Storage.replays_iff {store : Storage} {state : State} {sequence : ℕ} :
    store.Replays R state sequence ↔ ∃ state₀,
      (∀ r, loadSnapshot R r store.snapshot.entries = .ok state₀)
        ∧ NumberedLog.replay Op.sequence (applyOp R) store.journal state₀ store.snapshot.sequence
          = .ok (state, sequence) := by
  constructor
  · intro h
    have h₀ := h RangeOrder.sorted
    unfold contents at h₀
    cases hload : loadSnapshot R RangeOrder.sorted store.snapshot.entries with
    | error err =>
      rw [hload] at h₀
      cases h₀
    | ok state₀ =>
      rw [hload] at h₀
      exact ⟨state₀, fun r => loadSnapshot_ok_iff.mpr (loadSnapshot_ok_iff.mp hload),
        (replay_ok_iff le_rfl).mp h₀⟩
  · rintro ⟨state₀, hload, hreplay⟩ r
    unfold contents
    rw [hload r]
    exact (replay_ok_iff le_rfl).mpr hreplay

/-- A storage holds one state. -/
theorem Storage.Replays.unique {store : Storage} {state state' : State} {n n' : ℕ}
    (h : store.Replays R state n) (h' : store.Replays R state' n') : state = state' ∧ n = n' := by
  have h1 := h RangeOrder.sorted
  rw [h' RangeOrder.sorted] at h1
  cases h1
  exact ⟨rfl, rfl⟩

/-- A storage on which nothing was written holds the empty state. -/
theorem Storage.replays_empty : Storage.empty.Replays R ∅ 0 := by
  refine replays_iff.mpr ⟨∅, fun r => loadSnapshot_ok_iff.mpr ⟨fun key op h => ?_, fun key => ?_⟩,
    rfl⟩
  · rw [show Storage.empty.snapshot.entries = ∅ from rfl, Finmap.lookup_empty] at h
    cases h
  · rw [show Storage.empty.snapshot.entries = ∅ from rfl, Finmap.lookup_empty,
      Finmap.lookup_empty]
    rfl

/-- What holds of the entries a replay starts from and of those it puts holds of
the entries it ends with. -/
theorem all_of_replay {P : GoString → Entry → Prop} {ops : List Op}
    (hP : ∀ op ∈ ops, op.kind = kindSet → op.Valid R → P op.key op.toEntry)
    {state state' : State} {n n' : ℕ}
    (h : NumberedLog.replay Op.sequence (applyOp R) ops state n = .ok (state', n'))
    (hall : ∀ key entry, state.lookup key = some entry → P key entry) :
    ∀ key entry, state'.lookup key = some entry → P key entry := by
  induction ops generalizing state n with
  | nil =>
    cases h
    exact hall
  | cons op ops ih =>
    have hrest : ∀ op' ∈ ops, op'.kind = kindSet → op'.Valid R → P op'.key op'.toEntry :=
      fun op' hop' => hP op' (List.mem_cons_of_mem _ hop')
    unfold NumberedLog.replay at h
    split_ifs at h
    · exact ih hrest h hall
    · cases hop : applyOp R state op with
      | error err =>
        rw [hop] at h
        cases h
      | ok state₁ =>
        rw [hop] at h
        obtain ⟨hvalid, rfl⟩ := applyOp_ok_iff.mp hop
        refine ih hrest h (fun key entry hk => ?_)
        unfold Op.effect at hk
        split_ifs at hk with hs
        · by_cases hkk : key = op.key
          · rw [hkk, Finmap.lookup_insert] at hk
            cases hk
            exact hkk ▸ hP op List.mem_cons_self hs hvalid
          · rw [Finmap.lookup_insert_of_ne _ hkk] at hk
            exact hall key entry hk
        · exact hall key entry (lookup_erase_sub hk)

/-- The operation is in the journal or in the snapshot. -/
def Storage.Has (store : Storage) (op : Op) : Prop :=
  op ∈ store.journal ∨ ∃ key, store.snapshot.entries.lookup key = some op

/-- What holds of the entry of every valid SET it has holds of all that a storage
holds. -/
theorem Storage.Replays.all {P : GoString → Entry → Prop} {store : Storage}
    (hP : ∀ op : Op, store.Has op → op.kind = kindSet → op.Valid R → P op.key op.toEntry)
    {state : State} {sequence : ℕ} (h : store.Replays R state sequence) :
    ∀ key entry, state.lookup key = some entry → P key entry := by
  obtain ⟨state₀, hload, hreplay⟩ := replays_iff.mp h
  obtain ⟨hvalid, hstate₀⟩ := loadSnapshot_ok_iff.mp (hload RangeOrder.sorted)
  refine all_of_replay (fun op hop => hP op (Or.inl hop)) hreplay (fun key entry hk => ?_)
  rw [hstate₀ key, Option.map_eq_some_iff] at hk
  obtain ⟨op, hop, rfl⟩ := hk
  obtain ⟨hkind, hkey, hv⟩ := hvalid key op hop
  exact hkey ▸ hP op (Or.inr ⟨key, hop⟩) hkind hv

/-- **What a storage holds is a good state.** -/
theorem Storage.Replays.good {store : Storage} {state : State} {sequence : ℕ}
    (h : store.Replays R state sequence) : state.Good R := by
  refine h.all (fun op _ hkind hv => ⟨rfl, ?_⟩)
  obtain ⟨_, hnum⟩ | hd := hv
  · exact hnum
  · exact absurd (hkind.symm.trans hd) (by decide)

/-- What a storage holds can be stored again. -/
theorem Storage.Replays.storable {store : Storage} {state : State} {sequence : ℕ}
    (h : store.Replays R state sequence) :
    ∀ key entry, state.lookup key = some entry → entry.Storable := by
  refine h.all (P := fun _ entry => entry.Storable) (fun op _ _ _ => ?_)
  show Time.ofStored (Time.toStored (Time.ofStored op.expiresAt)) = Time.ofStored op.expiresAt
  rw [Time.toStored_ofStored]

end Contents

/-! ## Restore -/

variable {R : Type} [LinearOrder R] [Zero R] [Strconv R]

/-- The engine with what `Restore` has read. -/
def Engine.restored (e : Engine R) (r : RestoreOrders) (now : GoString → Time) (state : State)
    (sequence : ℕ) (index : Index R) : Engine R :=
  { e with state := dropExpired r.expiry now state, sequence := sequence, index := index }

/-- `Restore` past its guard, on the contents of the storage. -/
theorem Engine.restore_eq {e : Engine R} {store : Storage} (r : RestoreOrders)
    (now : GoString → Time) (fails : ReadFailures) (hstore : e.store = some store)
    (hrun : e.running = false) (hcl : e.closed = false) (hbuf : e.buffer = []) :
    e.restore r now fails
      = if fails.snapshot then (some (.context (str "snapshot") Storage.failure), e)
        else if fails.aof then (some (.context (str "journal") Storage.failure), e)
        else
          match store.contents R r.snapshot with
          | .error err => (some err, e)
          | .ok (state, sequence) =>
            match buildIndex r.index e.cfg.bTreeOrder (dropExpired r.expiry now state) with
            | .error err => (some err, e)
            | .ok index => (none, e.restored r now state sequence index) := by
  unfold restore restored Storage.contents Storage.readSnapshot Storage.readAOF
  rw [hstore]
  dsimp only
  rw [if_neg (by simp [hrun, hcl, hbuf])]
  cases fails.snapshot with
  | true => rfl
  | false =>
    cases fails.aof with
    | true => rfl
    | false =>
      simp only [Bool.false_eq_true, if_false]
      cases loadSnapshot R r.snapshot store.snapshot.entries with
      | error err => rfl
      | ok state₀ =>
        cases hr : replay R store.snapshot.sequence store.journal state₀
            store.snapshot.sequence with
        | error err => simp only [hr]
        | ok c =>
          cases hidx : (buildIndex r.index e.cfg.bTreeOrder (dropExpired r.expiry now c.1) :
              Except Err (Index R)) with
          | error err => simp only [hr, hidx]
          | ok index => simp only [hr, hidx]

/-- What a storage holds can be indexed. -/
theorem Storage.Replays.buildIndex {store : Storage} {state : State} {sequence : ℕ}
    (h : store.Replays R state sequence) (r : RestoreOrders) (now : GoString → Time)
    (degree : ℤ) : ∃ index,
      WasmRedis.buildIndex r.index degree (dropExpired r.expiry now state)
        = .ok (index : Index R)
      ∧ index.Mirrors (dropExpired r.expiry now state) :=
  buildIndex_mirrors r.index degree
    (fun key entry hk => (h.good key entry (lookup_of_dropExpired hk)).2)

/-- **`Restore` where the storage is readable**: the engine holds the part of
the contents that has not expired. -/
theorem Engine.restore_of_replays {e : Engine R} {store : Storage} {state : State}
    {sequence : ℕ} (r : RestoreOrders) (now : GoString → Time) (hstore : e.store = some store)
    (hrun : e.running = false) (hcl : e.closed = false) (hbuf : e.buffer = [])
    (h : store.Replays R state sequence) :
    ∃ index, e.restore r now {} = (none, e.restored r now state sequence index)
      ∧ index.Mirrors (dropExpired r.expiry now state) := by
  obtain ⟨index, hidx, hmirrors⟩ := h.buildIndex r now e.cfg.bTreeOrder
  refine ⟨index, ?_, hmirrors⟩
  rw [restore_eq r now {} hstore hrun hcl hbuf, h r.snapshot]
  simp only [Bool.false_eq_true, if_false]
  rw [hidx]

/-- **`Restore` where there is a storage**: it refuses, or it is called at startup, both
reads succeed and the storage holds a state. -/
theorem Engine.restore_refuses_or {e : Engine R} {store : Storage} (hstore : e.store = some store)
    (r : RestoreOrders) (now : GoString → Time) (fails : ReadFailures) :
    (∃ err, e.restore r now fails = (some err, e))
      ∨ e.running = false ∧ e.closed = false ∧ e.buffer = [] ∧ fails = {}
        ∧ ∃ state sequence, store.Replays R state sequence := by
  by_cases hguard : e.running = true ∨ e.closed = true ∨ e.buffer.length > 0
  · refine Or.inl ⟨.new (str "restauration réservée au démarrage"), ?_⟩
    unfold restore
    rw [hstore]
    exact if_pos hguard
  rw [not_or, not_or, Bool.not_eq_true, Bool.not_eq_true, gt_iff_lt, List.length_pos_iff,
    not_not] at hguard
  obtain ⟨hrun, hcl, hbuf⟩ := hguard
  rw [restore_eq r now fails hstore hrun hcl hbuf]
  split_ifs with hs ha
  · exact Or.inl ⟨_, rfl⟩
  · exact Or.inl ⟨_, rfl⟩
  cases hc : store.contents R r.snapshot with
  | error err => exact Or.inl ⟨err, rfl⟩
  | ok c =>
    have hfails : fails = {} := by
      rw [Bool.not_eq_true] at hs ha
      cases fails
      subst hs ha
      rfl
    exact Or.inr ⟨hrun, hcl, hbuf, hfails, c.1, c.2, Storage.replays_of_contents hc⟩

/-- **What `Restore` can do**: nothing, in memory mode or with an error, or
replace the entries by what the storage holds and has not expired. -/
theorem Engine.restore_cases (e : Engine R) (r : RestoreOrders) (now : GoString → Time)
    (fails : ReadFailures) :
    e.store = none ∧ e.restore r now fails = (none, e)
      ∨ (∃ err, e.restore r now fails = (some err, e))
      ∨ ∃ store state sequence index,
          e.store = some store ∧ e.closed = false ∧ e.buffer = []
            ∧ store.Replays R state sequence ∧ index.Mirrors (dropExpired r.expiry now state)
            ∧ e.restore r now fails = (none, e.restored r now state sequence index) := by
  cases hstore : e.store with
  | none =>
    refine Or.inl ⟨rfl, ?_⟩
    unfold restore
    rw [hstore]
  | some store =>
    refine Or.inr ?_
    obtain herr | ⟨hrun, hcl, hbuf, rfl, state, sequence, hreplays⟩ :=
      restore_refuses_or hstore r now fails
    · exact Or.inl herr
    · obtain ⟨index, heq, hmirrors⟩ := restore_of_replays r now hstore hrun hcl hbuf hreplays
      exact Or.inr ⟨store, state, sequence, index, rfl, hcl, hbuf, hreplays, hmirrors, heq⟩

end WasmRedis
