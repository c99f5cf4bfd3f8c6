import WasmRedis.Calls

/-!
# What a call can change

An operation of the engine that does not write to the storage changes the
entries in one of two ways: it puts an entry, or it removes a key, and it
records what it did. This module says so once (`call_changes`), operation by
operation, so that what every change preserves is preserved by every operation.

The operations that only read change less. Each of them may remove keys, and
only keys whose entry has expired (`Prunes`); a closed engine does not even
that.
-/

namespace WasmRedis

open GoString

variable {R : Type} [LinearOrder R] [Zero R] [Strconv R]

namespace Engine

/-! ## Recording -/

section Record

omit [LinearOrder R] [Zero R] [Strconv R]

variable (e : Engine R) (kind : GoString) (entry : Entry)

/-- The operation `record` appends to the buffer. -/
def recordedOp : Op :=
  { sequence := e.sequence + 1, kind := kind, key := entry.key, value := entry.value,
    isNumber := entry.isNumber, expiresAt := Time.toStored entry.expiresAt }

@[simp] theorem record_state : (e.record kind entry).state = e.state := by
  unfold record
  split <;> rfl

@[simp] theorem record_index : (e.record kind entry).index = e.index := by
  unfold record
  split <;> rfl

@[simp] theorem record_store : (e.record kind entry).store = e.store := by
  unfold record
  split <;> rfl

@[simp] theorem record_cfg : (e.record kind entry).cfg = e.cfg := by
  unfold record
  split <;> rfl

@[simp] theorem record_closed : (e.record kind entry).closed = e.closed := by
  unfold record
  split <;> rfl

/-- In memory mode nothing is recorded. -/
theorem record_of_none (h : e.store = none) : e.record kind entry = e := by
  unfold record
  rw [h]

theorem record_buffer (h : e.store ≠ none) :
    (e.record kind entry).buffer = e.buffer ++ [e.recordedOp kind entry] := by
  obtain ⟨store, hs⟩ := Option.ne_none_iff_exists'.mp h
  unfold record
  rw [hs]
  rfl

theorem record_sequence (h : e.store ≠ none) :
    (e.record kind entry).sequence = e.sequence + 1 := by
  obtain ⟨store, hs⟩ := Option.ne_none_iff_exists'.mp h
  unfold record
  rw [hs]

end Record

/-! ## The two changes -/

/-- The entry a DELETE is recorded with. -/
def tombstone (key : GoString) : Entry :=
  { key := key, value := [], isNumber := false, expiresAt := Time.zero }

/-- **One change of the entries**, made by an engine that is not closed, with a
clock between `lo` and `hi`. -/
inductive Change (lo hi : Time) (e : Engine R) : Engine R → Prop where
  /-- A SET. The deadline was computed from a reading of the clock, and survives
  its trip through 64 bits. -/
  | put (entry : Entry) (index : Index R) (ttl : ℤ) (now : Time) : e.closed = false →
      lo ≤ now → now ≤ hi → entry.expiresAt = deadline ttl now →
      (0 < ttl → Time.unix (Time.unixNano entry.expiresAt) = entry.expiresAt) →
      (entry.isNumber = true → Strconv.isFiniteNumber R entry.value = true) →
      e.index.set entry.key entry.value entry.isNumber = .ok index →
      Change lo hi e ({ e with index := index,
                               state := e.state.insert entry.key entry }.record kindSet entry)
  /-- A DELETE. -/
  | remove (key : GoString) : e.closed = false → Change lo hi e (e.remove key)

/-- Changes, one after the other. -/
def Changes (lo hi : Time) : Engine R → Engine R → Prop := Relation.ReflTransGen (Change lo hi)

/-- The removal of a key whose entry has expired. -/
def Prune (now : Time) (e e' : Engine R) : Prop :=
  e.closed = false ∧ ∃ key entry, e.state.lookup key = some entry ∧ expired entry now = true
    ∧ e' = e.remove key

/-- Removals of keys whose entries have expired. -/
def Prunes (now : Time) : Engine R → Engine R → Prop := Relation.ReflTransGen (Prune now)

theorem Prunes.changes {now lo hi : Time} {e e' : Engine R} (h : Prunes now e e') :
    Changes lo hi e e' := by
  refine Relation.ReflTransGen.mono (fun a b hab => ?_) _ _ h
  obtain ⟨hc, key, _, _, _, rfl⟩ := hab
  exact Change.remove key hc

omit [Zero R] [Strconv R] in
theorem remove_state (e : Engine R) (key : GoString) :
    (e.remove key).state = e.state.erase key := by
  rw [remove, record_state]

omit [Zero R] [Strconv R] in
theorem remove_index (e : Engine R) (key : GoString) :
    (e.remove key).index = e.index.delete key := by
  rw [remove, record_index]

omit [Zero R] [Strconv R] in
@[simp] theorem remove_store (e : Engine R) (key : GoString) : (e.remove key).store = e.store := by
  rw [remove, record_store]

omit [Zero R] [Strconv R] in
@[simp] theorem remove_cfg (e : Engine R) (key : GoString) : (e.remove key).cfg = e.cfg := by
  rw [remove, record_cfg]

omit [Zero R] [Strconv R] in
@[simp] theorem remove_closed (e : Engine R) (key : GoString) :
    (e.remove key).closed = e.closed := by
  rw [remove, record_closed]

/-- A change leaves the storage, the settings and the flags as they are. -/
theorem Change.frame {lo hi : Time} {e e' : Engine R} (h : Change lo hi e e') :
    e'.store = e.store ∧ e'.cfg = e.cfg ∧ e'.closed = e.closed := by
  cases h with
  | put entry index ttl now hcl hlo hhi hdl hrange hnum hidx =>
    exact ⟨by rw [record_store], by rw [record_cfg], by rw [record_closed]⟩
  | remove key hcl => exact ⟨remove_store e key, remove_cfg e key, remove_closed e key⟩

/-- A change is made by an engine that is not closed, and leaves it so. -/
theorem Change.closed_eq_false {lo hi : Time} {e e' : Engine R} (h : Change lo hi e e') :
    e'.closed = false := by
  rw [h.frame.2.2]
  cases h with
  | put _ _ _ _ hcl => exact hcl
  | remove _ hcl => exact hcl

/-- A change records nothing in memory mode. -/
theorem Change.buffer_of_none {lo hi : Time} {e e' : Engine R} (h : Change lo hi e e')
    (hs : e.store = none) : e'.buffer = e.buffer := by
  cases h with
  | put entry index ttl now hcl hlo hhi hdl hrange hnum hidx =>
    have hkept : ({ e with index := index,
                           state := e.state.insert entry.key entry }.record kindSet entry)
        = { e with index := index, state := e.state.insert entry.key entry } :=
      record_of_none _ kindSet entry hs
    rw [hkept]
  | remove key hcl =>
    have hkept : e.remove key
        = { e with index := e.index.delete key, state := e.state.erase key } :=
      record_of_none _ kindDelete _ hs
    rw [hkept]

theorem Changes.frame {lo hi : Time} {e e' : Engine R} (h : Changes lo hi e e') :
    e'.store = e.store ∧ e'.cfg = e.cfg ∧ e'.closed = e.closed := by
  induction h with
  | refl => exact ⟨rfl, rfl, rfl⟩
  | tail _ hlast ih =>
    obtain ⟨hs, hc, hcl⟩ := hlast.frame
    exact ⟨hs.trans ih.1, hc.trans ih.2.1, hcl.trans ih.2.2⟩

/-! ## SET -/

/-- **What `set` can do**: refuse and change nothing, or put one entry. -/
theorem set_cases (e : Engine R) (key value : GoString) (number : Bool) (ttl : ℤ) (now : Time) :
    (∃ err, e.set key value number ttl now = (some err, e)) ∨
    ∃ index, e.closed = false ∧ 0 ≤ ttl
      ∧ (number = true → Strconv.isFiniteNumber R value = true)
      ∧ (0 < (if ttl = 0 then e.cfg.defaultTTL else ttl) →
          Time.unix (Time.unixNano (deadline (if ttl = 0 then e.cfg.defaultTTL else ttl) now))
            = deadline (if ttl = 0 then e.cfg.defaultTTL else ttl) now)
      ∧ e.index.set key value number = .ok index
      ∧ e.set key value number ttl now
        = (none, { e with
            index := index,
            state := e.state.insert key
              { key := key, value := value, isNumber := number,
                expiresAt := deadline (if ttl = 0 then e.cfg.defaultTTL else ttl) now } }.record
            kindSet
            { key := key, value := value, isNumber := number,
              expiresAt := deadline (if ttl = 0 then e.cfg.defaultTTL else ttl) now }) := by
  unfold set
  by_cases hneg : ttl < 0
  · exact Or.inl ⟨_, if_pos hneg⟩
  rw [if_neg hneg]
  by_cases hnum : (number && !Strconv.isFiniteNumber R value) = true
  · exact Or.inl ⟨_, if_pos hnum⟩
  rw [if_neg hnum]
  by_cases hcl : e.closed = true
  · exact Or.inl ⟨_, if_pos hcl⟩
  rw [if_neg hcl]
  dsimp only
  generalize (if ttl = 0 then e.cfg.defaultTTL else ttl) = effective
  by_cases hrange : 0 < effective ∧
      Time.unix (Time.unixNano (deadline effective now)) ≠ deadline effective now
  · exact Or.inl ⟨_, if_pos hrange⟩
  rw [if_neg hrange]
  cases hidx : e.index.set key value number with
  | error err => exact Or.inl ⟨err, rfl⟩
  | ok index =>
    refine Or.inr ⟨index, by simpa using hcl, not_lt.mp hneg, fun hn => ?_, fun hpos => ?_, rfl,
      rfl⟩
    · cases hv : Strconv.isFiniteNumber R value with
      | true => rfl
      | false => exact absurd (by rw [hn, hv]; rfl) hnum
    · by_contra hne
      exact hrange ⟨hpos, hne⟩

theorem set_changes {e : Engine R} {key value : GoString} {number : Bool} {ttl : ℤ}
    {lo hi now : Time} (hlo : lo ≤ now) (hhi : now ≤ hi) :
    Changes lo hi e (e.set key value number ttl now).2 := by
  rcases set_cases e key value number ttl now with
    ⟨err, hset⟩ | ⟨index, hcl, _, hnum, hrange, hidx, hset⟩
  · rw [hset]
    exact Relation.ReflTransGen.refl
  · rw [hset]
    exact Relation.ReflTransGen.single
      (Change.put { key := key, value := value, isNumber := number, expiresAt := deadline _ now }
        index _ now hcl hlo hhi rfl hrange hnum hidx)

/-! ## The reading operations -/

omit [Zero R] [Strconv R] in
theorem getEntry_prunes (e : Engine R) (key : GoString) (now : Time) :
    Prunes now e (e.getEntry key now).2 := by
  unfold getEntry
  cases hk : e.state.lookup key with
  | none => exact Relation.ReflTransGen.refl
  | some entry =>
    dsimp only
    cases hx : expired entry now with
    | false => exact Relation.ReflTransGen.refl
    | true =>
      cases hcl : e.closed with
      | true => exact Relation.ReflTransGen.refl
      | false => exact Relation.ReflTransGen.single ⟨hcl, key, entry, hk, hx, rfl⟩

omit [Zero R] [Strconv R] in
theorem collect_prunes (now : Time) (keys : List GoString) (entries : List Entry)
    (e : Engine R) : Prunes now e (collect now keys (entries, e)).2 := by
  induction keys generalizing entries e with
  | nil => exact Relation.ReflTransGen.refl
  | cons key keys ih =>
    unfold collect
    dsimp only
    cases hk : e.state.lookup key with
    | none => exact ih _ e
    | some entry =>
      rw [Option.getD_some]
      cases hx : expired entry now with
      | false => exact ih _ e
      | true =>
        cases hcl : e.closed with
        | true => exact ih _ e
        | false =>
          exact (Relation.ReflTransGen.single ⟨hcl, key, entry, hk, hx, rfl⟩).trans
            (ih entries (e.remove key))

theorem getWhere_prunes (r : RangeOrder GoString) (e : Engine R)
    (field operator operand : GoString) (number : Bool) (now : Time) :
    Prunes now e (e.getWhere r field operator operand number now).2 := by
  unfold getWhere
  cases e.index.find r field operator operand number with
  | error err => exact Relation.ReflTransGen.refl
  | ok keys => exact collect_prunes now keys [] e

omit [Zero R] [Strconv R] in
theorem sweepExpired_prunes (r : RangeOrder GoString) (e : Engine R) (now : Time) :
    Prunes now e (e.sweepExpired r now).2 := by
  unfold sweepExpired
  cases hcl : e.closed with
  | true => exact Relation.ReflTransGen.refl
  | false =>
    -- the keys not visited yet still have the entries the loop started from
    refine (GoMap.rangeFold_induction r e.state
      (P := fun done (s : ℕ × Engine R) => s.2.closed = false ∧ Prunes now e s.2
        ∧ ∀ k ∉ done, s.2.state.lookup k = e.state.lookup k) ?_
      (fun done k entry s hk hlook hP => ?_)).2.1
    · exact ⟨hcl, Relation.ReflTransGen.refl, fun _ _ => rfl⟩
    obtain ⟨hc, hp, hrest⟩ := hP
    cases hx : expired entry now with
    | false => exact ⟨hc, hp, fun k' hk' => hrest k' (fun h => hk' (by simp [h]))⟩
    | true =>
      refine ⟨by rw [if_pos rfl, remove_closed, hc], ?_, fun k' hk' => ?_⟩
      · exact hp.tail ⟨hc, k, entry, by rw [hrest k hk, hlook], hx, rfl⟩
      · have hne : k' ≠ k := fun h => hk' (by simp [h])
        rw [if_pos rfl, remove_state, Finmap.lookup_erase_ne hne]
        exact hrest k' (fun h => hk' (by simp [h]))

omit [Zero R] [Strconv R] in
theorem delete_cases (e : Engine R) (key : GoString) :
    e.closed = true ∧ e.delete key = (some .closed, e)
      ∨ e.closed = false ∧ e.delete key = (none, e.remove key) := by
  unfold delete
  cases hcl : e.closed with
  | true => exact Or.inl ⟨rfl, rfl⟩
  | false => exact Or.inr ⟨rfl, rfl⟩

theorem delete_changes {lo hi : Time} (e : Engine R) (key : GoString) :
    Changes lo hi e (e.delete key).2 := by
  rcases delete_cases e key with ⟨_, h⟩ | ⟨hcl, h⟩
  · rw [h]
    exact Relation.ReflTransGen.refl
  · rw [h]
    exact Relation.ReflTransGen.single (Change.remove key hcl)

/-- The error of a result. -/
def errorOf {α : Type} : Except Err α → Option Err
  | .ok _ => none
  | .error err => some err

/-- **What a command does**: it changes the engine as the operation behind it
does, and fails where this does. -/
theorem execute_cases (r : RangeOrder GoString) (e : Engine R) (cmd : Command) (now : Time) :
    (cmd.kind = kindSet
        ∧ (e.execute r cmd now).1.err = (e.set cmd.key cmd.value cmd.isNumber cmd.ttl now).1
        ∧ (e.execute r cmd now).2 = (e.set cmd.key cmd.value cmd.isNumber cmd.ttl now).2)
      ∨ (cmd.kind = kindGet
        ∧ (e.execute r cmd now).1.err = errorOf (e.getEntry cmd.key now).1
        ∧ (e.execute r cmd now).2 = (e.getEntry cmd.key now).2)
      ∨ (cmd.kind = kindDelete
        ∧ (e.execute r cmd now).1.err = (e.delete cmd.key).1
        ∧ (e.execute r cmd now).2 = (e.delete cmd.key).2)
      ∨ (cmd.kind = kindPing ∧ (e.execute r cmd now).1.err = none ∧ (e.execute r cmd now).2 = e)
      ∨ (cmd.kind = kindGetWhere
        ∧ (e.execute r cmd now).1.err
          = errorOf (e.getWhere r cmd.field cmd.operator cmd.operand cmd.operandIsNumber now).1
        ∧ (e.execute r cmd now).2
          = (e.getWhere r cmd.field cmd.operator cmd.operand cmd.operandIsNumber now).2)
      ∨ (cmd.kind ∉ [kindSet, kindGet, kindDelete, kindPing, kindGetWhere]
        ∧ (e.execute r cmd now).1.err = some .unknown ∧ (e.execute r cmd now).2 = e) := by
  unfold execute
  split_ifs with hset hget hdel hping hwhere
  · refine Or.inl ⟨hset, ?_⟩
    obtain ⟨_ | err, e'⟩ := e.set cmd.key cmd.value cmd.isNumber cmd.ttl now <;> exact ⟨rfl, rfl⟩
  · refine Or.inr (Or.inl ⟨hget, ?_⟩)
    obtain ⟨err | entry, e'⟩ := e.getEntry cmd.key now <;> exact ⟨rfl, rfl⟩
  · refine Or.inr (Or.inr (Or.inl ⟨hdel, ?_⟩))
    obtain ⟨_ | err, e'⟩ := e.delete cmd.key <;> exact ⟨rfl, rfl⟩
  · exact Or.inr (Or.inr (Or.inr (Or.inl ⟨hping, rfl, rfl⟩)))
  · refine Or.inr (Or.inr (Or.inr (Or.inr (Or.inl ⟨hwhere, ?_⟩))))
    obtain ⟨err | entries, e'⟩ :=
      e.getWhere r cmd.field cmd.operator cmd.operand cmd.operandIsNumber now <;> exact ⟨rfl, rfl⟩
  · refine Or.inr (Or.inr (Or.inr (Or.inr (Or.inr ⟨?_, rfl, rfl⟩))))
    simp [hset, hget, hdel, hping, hwhere]

theorem execute_changes {r : RangeOrder GoString} {e : Engine R} {cmd : Command}
    {lo hi now : Time} (hlo : lo ≤ now) (hhi : now ≤ hi) :
    Changes lo hi e (e.execute r cmd now).2 := by
  obtain ⟨_, _, h⟩ | ⟨_, _, h⟩ | ⟨_, _, h⟩ | ⟨_, _, h⟩ | ⟨_, _, h⟩ | ⟨_, _, h⟩ :=
    execute_cases r e cmd now
  all_goals rw [h]
  · exact set_changes hlo hhi
  · exact (getEntry_prunes e _ now).changes
  · exact delete_changes e _
  · exact Relation.ReflTransGen.refl
  · exact (getWhere_prunes r e _ _ _ _ now).changes
  · exact Relation.ReflTransGen.refl

end Engine

/-- The calls that make storage calls. -/
def Call.UsesStorage : Call → Prop
  | .flush _ => True
  | .snapshot _ _ _ => True
  | .restore _ _ _ => True
  | .close _ => True
  | _ => False

/-- A call that makes no storage call reads the clock at one instant at most. -/
theorem Call.exists_within {c : Call} (hc : ¬ c.UsesStorage) : ∃ lo hi, c.Within lo hi := by
  have hone : ∀ now : Time, (∀ t, c.Reads t → t = now) → ∃ lo hi, c.Within lo hi :=
    fun now h => ⟨now, now, within_of_reads h le_rfl le_rfl⟩
  cases c with
  | set key value number ttl now => exact hone now (fun t ht => ht)
  | get key now => exact hone now (fun t ht => ht)
  | delete key => exact hone 0 (fun t ht => ht.elim)
  | getWhere r field operator operand number now => exact hone now (fun t ht => ht)
  | execute r cmd now => exact hone now (fun t ht => ht)
  | sweepExpired r now => exact hone now (fun t ht => ht)
  | flush reply => exact absurd trivial hc
  | snapshot r now replies => exact absurd trivial hc
  | restore r now fails => exact absurd trivial hc
  | close reply => exact absurd trivial hc

/-- **What a call can change** when it makes no storage call: it changes the
entries, one at a time, and nothing else. -/
theorem Engine.call_changes {e : Engine R} {c : Call} {lo hi : Time} (hc : ¬ c.UsesStorage)
    (hw : c.Within lo hi) : Changes lo hi e (e.call c).2 := by
  cases c with
  | set key value number ttl now =>
    obtain ⟨hlo, hhi⟩ := hw.2 now rfl
    exact set_changes hlo hhi
  | get key now => exact (getEntry_prunes e key now).changes
  | delete key => exact delete_changes e key
  | getWhere r field operator operand number now =>
    exact (getWhere_prunes r e field operator operand number now).changes
  | execute r cmd now =>
    obtain ⟨hlo, hhi⟩ := hw.2 now rfl
    exact execute_changes hlo hhi
  | sweepExpired r now => exact (sweepExpired_prunes r e now).changes
  | flush reply => exact absurd trivial hc
  | snapshot r now replies => exact absurd trivial hc
  | restore r now fails => exact absurd trivial hc
  | close reply => exact absurd trivial hc

end WasmRedis
