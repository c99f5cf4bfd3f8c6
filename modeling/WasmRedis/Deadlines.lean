import WasmRedis.Compaction

/-!
# Deadlines on disk

A deadline is an instant in memory and an `int64` of nanoseconds on disk, and
each side has a value that stands for none: the zero time, and `0`. `set` refuses
a deadline outside the 64 bits, which the conversion would wrap around, and so the
zero time. It lets the instant `0` through, January 1 of 1970, which is then
stored as no deadline at all.

`keepsDeadline_iff` says that this is the only case: for every other clock and every
other TTL, what is recorded and what a snapshot holds is decoded as the entry in
memory.
-/

namespace WasmRedis

open GoString

variable {R : Type} [LinearOrder R] [Zero R] [Strconv R]

section Decoding

variable (R)

omit [LinearOrder R] [Zero R] in
/-- **`applyOp` decodes the operation as the entry**, over any state: with its
key, its value, its type and its deadline, so that it expires when the entry
does, and has a deadline if the entry has one. -/
def Op.DecodedAs (op : Op) (entry : Entry) : Prop :=
  ∀ state : State, ∃ state' decoded, applyOp R state op = .ok state'
    ∧ state'.lookup entry.key = some decoded
    ∧ decoded.key = entry.key ∧ decoded.value = entry.value ∧ decoded.isNumber = entry.isNumber
    ∧ decoded.expiresAt = entry.expiresAt
    ∧ (∀ t, expired decoded t = expired entry t)
    ∧ Time.isZero decoded.expiresAt = Time.isZero entry.expiresAt

variable {R}

omit [LinearOrder R] [Zero R] in
/-- The SET of an entry is decoded as the entry where the deadline survives. -/
theorem decodedAs_iff {op : Op} {entry : Entry} (hkind : op.kind = kindSet)
    (hkey : op.key = entry.key) (hvalue : op.value = entry.value)
    (hnumber : op.isNumber = entry.isNumber)
    (hexpires : op.expiresAt = Time.toStored entry.expiresAt)
    (hfinite : entry.isNumber = true → Strconv.isFiniteNumber R entry.value = true) :
    op.DecodedAs R entry ↔ entry.Storable := by
  have hvalid : op.Valid R := Or.inl ⟨hkind, by rwa [hnumber, hvalue]⟩
  have hlookup : ∀ state : State, (op.effect state).lookup entry.key = some op.toEntry := by
    intro state
    rw [Op.effect, if_pos hkind, hkey, Finmap.lookup_insert]
  have hdeadline : op.toEntry.expiresAt = Time.ofStored (Time.toStored entry.expiresAt) := by
    rw [← hexpires]
    rfl
  constructor
  · intro h
    obtain ⟨state', decoded, happly, hdecoded, _, _, _, hd, _⟩ := h ∅
    rw [hvalid.applyOp] at happly
    obtain rfl := Except.ok.inj happly
    rw [hlookup] at hdecoded
    obtain rfl := Option.some.inj hdecoded
    exact hdeadline.symm.trans hd
  · intro h state
    have hentry : op.toEntry = entry := by
      unfold Op.toEntry
      rw [hkey, hvalue, hnumber, hexpires, h]
    refine ⟨_, entry, hvalid.applyOp state, ?_, rfl, rfl, rfl, rfl, fun _ => rfl, rfl⟩
    rw [hlookup, hentry]

end Decoding

namespace Engine

omit [LinearOrder R] [Zero R] [Strconv R] in
/-- The TTL `set` uses: the default where none is given. -/
def effectiveTTL (e : Engine R) (ttl : ℤ) : ℤ := if ttl = 0 then e.cfg.defaultTTL else ttl

omit [LinearOrder R] [Zero R] [Strconv R] in
/-- The deadline of an entry with a TTL, in the terms of `set`. -/
theorem deadline_effectiveTTL {e : Engine R} {ttl : ℤ} (h : 0 < e.effectiveTTL ttl) (now : Time) :
    deadline (if ttl = 0 then e.cfg.defaultTTL else ttl) now = now + e.effectiveTTL ttl := if_pos h

/-- **Deadlines are stored exactly or refused**: a `set` that is refused changes
nothing, and one that succeeds has a deadline in the 64 bits, records an
operation that is decoded as the entry, and puts one that is decoded as the entry
into any snapshot written before it has expired. -/
def KeepsDeadline (e : Engine R) (key value : GoString) (number : Bool) (ttl : ℤ) (now : Time) :
    Prop :=
  let set := e.set key value number ttl now
  let entry : Entry :=
    { key := key, value := value, isNumber := number, expiresAt := now + e.effectiveTTL ttl }
  (set.1 ≠ none → set.2 = e)
  ∧ (set.1 = none →
    (-2 ^ 63 ≤ entry.expiresAt ∧ entry.expiresAt < 2 ^ 63)
    ∧ Time.isZero entry.expiresAt = false
    ∧ set.2.state.lookup key = some entry
    ∧ (∃ op, set.2.buffer = e.buffer ++ [op] ∧ op.DecodedAs R entry)
    ∧ ∀ (r : RangeOrder GoString) (clock : GoString → Time), expired entry (clock key) = false →
      ∃ op, (set.2.snapshotEntries r clock).lookup key = some op ∧ op.DecodedAs R entry)

/-- A `set` that nothing else speaks against is accepted with the deadline `0`. -/
theorem set_deadline_zero {e : Engine R} {ttl : ℤ} (heff : 0 < e.effectiveTTL ttl)
    (key : GoString) {value : GoString} {number : Bool} {now : Time}
    (hzero : now + e.effectiveTTL ttl = 0) (hclosed : e.closed = false)
    (hfinite : number = true → Strconv.isFiniteNumber R value = true) :
    (e.set key value number ttl now).1 = none := by
  have httl : ¬ ttl < 0 := by
    unfold effectiveTTL at heff
    split_ifs at heff <;> omega
  have hnumber : ¬ (number && !Strconv.isFiniteNumber R value) = true := by
    rw [Bool.and_eq_true, Bool.not_eq_true']
    rintro ⟨hn, hf⟩
    rw [hfinite hn] at hf
    exact nomatch hf
  have hdeadline : deadline (if ttl = 0 then e.cfg.defaultTTL else ttl) now = 0 :=
    (deadline_effectiveTTL heff now).trans hzero
  have hindex : e.index.set key value number = .ok _ := Index.set_of_scalar (scalar_ok hfinite)
  unfold set
  rw [if_neg httl, if_neg hnumber, if_neg (by rw [hclosed]; decide)]
  dsimp only
  rw [hdeadline, if_neg (fun h => h.2 rfl), hindex]

/-- **Where the deadlines are kept**: wherever the deadline is not the instant
`0`, or `set` has another reason to refuse. -/
theorem keepsDeadline_iff {e : Engine R} (hstore : e.store ≠ none) {ttl : ℤ}
    (heff : 0 < e.effectiveTTL ttl) (key value : GoString) (number : Bool) (now : Time) :
    e.KeepsDeadline key value number ttl now ↔
      now + e.effectiveTTL ttl ≠ 0 ∨ e.closed = true
        ∨ (number = true ∧ Strconv.isFiniteNumber R value = false) := by
  rcases set_cases e key value number ttl now with
    ⟨err, hset⟩ | ⟨index, hcl, _, hfinite, hrange, _, hset⟩
  · refine iff_of_true ⟨fun _ => by rw [hset], fun h => ?_⟩ ?_
    · rw [hset] at h
      exact nomatch h
    · by_contra hnone
      simp only [not_or, not_and, Bool.not_eq_true, Bool.not_eq_false, not_not] at hnone
      have hok := set_deadline_zero heff key hnone.1 hnone.2.1 hnone.2.2
      rw [hset] at hok
      exact nomatch hok
  · have hd := deadline_effectiveTTL heff now
    have heff' : 0 < (if ttl = 0 then e.cfg.defaultTTL else ttl) := heff
    rw [hd] at hset hrange
    have hfits := hrange heff'
    have hnone : e.closed ≠ true ∧ ¬ (number = true ∧ Strconv.isFiniteNumber R value = false) :=
      ⟨by rw [hcl]; decide, fun ⟨hn, hf⟩ => by rw [hfinite hn] at hf; exact nomatch hf⟩
    rw [or_iff_left (not_or.mpr hnone), ← Time.ofStored_toStored_iff hfits]
    generalize hput : ({ e with
      index := index
      state := e.state.insert key ⟨key, value, number, now + e.effectiveTTL ttl⟩ } : Engine R)
        = put at hset
    have hput_store : put.store ≠ none := hput ▸ hstore
    have hput_buffer : put.buffer = e.buffer := by rw [← hput]
    have hput_state :
        put.state = e.state.insert key ⟨key, value, number, now + e.effectiveTTL ttl⟩ := by
      rw [← hput]
    unfold KeepsDeadline
    rw [hset]
    dsimp only
    rw [record_state, record_buffer _ _ _ hput_store, hput_buffer, hput_state]
    constructor
    · rintro ⟨_, h⟩
      obtain ⟨_, _, _, ⟨op, hbuffer, hop⟩, _⟩ := h rfl
      obtain rfl := List.singleton_injective (List.append_cancel_left hbuffer)
      exact (decodedAs_iff rfl rfl rfl rfl rfl hfinite).mp hop
    · intro hstorable
      refine ⟨fun h => absurd rfl h, fun _ => ⟨(Time.unix_unixNano_iff _).mp hfits,
        decide_eq_false (hfits ▸ Time.unix_ne_zero _), Finmap.lookup_insert _,
        ⟨_, rfl, (decodedAs_iff rfl rfl rfl rfl rfl hfinite).mpr hstorable⟩,
        fun r clock halive => ?_⟩⟩
      refine ⟨Entry.toOp key ⟨key, value, number, now + e.effectiveTTL ttl⟩, ?_,
        (decodedAs_iff rfl rfl rfl rfl rfl hfinite).mpr hstorable⟩
      rw [lookup_snapshotEntries, record_state, hput_state,
        visible_of_lookup (Finmap.lookup_insert _), halive]
      rfl

/-- An engine over an empty storage. -/
def overEmpty : Engine ℕ := { (new : Engine ℕ) with store := some Storage.empty }

/-- The deadline of a minute after 23:59 on December 31 of 1969. -/
theorem deadline_of_1970 :
    overEmpty.effectiveTTL 60000000000 = 60000000000
      ∧ (overEmpty.set [107] [118] false 60000000000 (-60000000000)).1 = none
      ∧ ¬ overEmpty.KeepsDeadline [107] [118] false 60000000000 (-60000000000) := by
  have hok : (overEmpty.set [107] [118] false 60000000000 (-60000000000)).1 = none := by decide
  refine ⟨rfl, hok, fun ⟨_, h⟩ => ?_⟩
  obtain ⟨_, _, _, ⟨op, hbuffer, hop⟩, _⟩ := h hok
  have hbuffer' : (overEmpty.set [107] [118] false 60000000000 (-60000000000)).2.buffer
      = [] ++ [{ sequence := 1, kind := kindSet, key := [107], value := [118], isNumber := false,
                 expiresAt := 0 }] := by decide
  obtain rfl := List.singleton_injective
    (List.append_cancel_left (hbuffer.symm.trans hbuffer'))
  obtain ⟨state', decoded, happly, hdecoded, _, _, _, hdeadline, _⟩ := hop ∅
  obtain rfl := Except.ok.inj happly
  obtain rfl := Option.some.inj ((Finmap.lookup_insert _).symm.trans hdecoded)
  exact absurd hdeadline (by decide)

theorem keepsDeadline_iff_minute :
    overEmpty.KeepsDeadline [107] [118] false 60000000000 0 ↔
      (0 : ℤ) + overEmpty.effectiveTTL 60000000000 ≠ 0 ∨ overEmpty.closed = true
        ∨ (false = true ∧ Strconv.isFiniteNumber ℕ [118] = false) :=
  keepsDeadline_iff (by decide) (by decide) [107] [118] false 0

end Engine

end WasmRedis
