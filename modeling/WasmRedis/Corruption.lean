import WasmRedis.EngineFiles
import WasmRedis.Recovery

/-!
# One byte of the journal changed

A line of the journal has no checksum. A byte changed in it is noticed if the
line no longer reads as an operation, if the number it then has breaks the
sequence, or if the operation is not valid. A line that still reads as a valid
operation of the right number is applied as it reads (`one_byte_changed`).

`Harmless` lists what may come of the changed line without harm: the start is
refused, or the change makes no difference. `no_silent_start_iff` shows that the
list is complete.
-/

namespace WasmRedis

open GoString Lines

/-! ## The state -/

/-- What an operation leaves under its key. -/
def Op.left (op : Op) : Option Entry := if op.kind = kindSet then some op.toEntry else none

theorem lookup_effect (op : Op) (state : State) (key : GoString) :
    (op.effect state).lookup key = if key = op.key then op.left else state.lookup key := by
  unfold Op.effect Op.left
  by_cases hkey : key = op.key
  · rw [if_pos hkey, hkey]
    split_ifs
    · exact Finmap.lookup_insert _
    · exact Finmap.lookup_erase _ _
  · rw [if_neg hkey]
    split_ifs
    · exact Finmap.lookup_insert_of_ne _ hkey
    · exact Finmap.lookup_erase_ne hkey

/-- The last operation on a key says what is left under it. -/
theorem lookup_foldl_effect (ops : List Op) (state : State) (key : GoString) :
    (ops.foldl Op.effect state).lookup key
      = ((ops.reverse.find? (fun op => op.key = key)).map Op.left).getD (state.lookup key) := by
  induction ops using List.reverseRecOn with
  | nil => rfl
  | append_singleton ops op ih =>
    rw [List.foldl_append, List.foldl_cons, List.foldl_nil, lookup_effect, List.reverse_append,
      List.reverse_singleton, List.singleton_append]
    by_cases hkey : op.key = key
    · rw [if_pos hkey.symm, List.find?_cons, decide_eq_true hkey]
      rfl
    · rw [if_neg (Ne.symm hkey), List.find?_cons, decide_eq_false hkey, ih]

/-- Two states that the same operations follow look alike where one of these
writes, or where they did before. -/
theorem visible_foldl_effect_iff {ops : List Op} {state state' : State} {t : Time}
    {key : GoString} :
    visible t (ops.foldl Op.effect state) key = visible t (ops.foldl Op.effect state') key ↔
      (∃ op ∈ ops, op.key = key) ∨ visible t state key = visible t state' key := by
  unfold visible Expiry.alive
  rw [lookup_foldl_effect, lookup_foldl_effect]
  cases hlast : ops.reverse.find? (fun op => op.key = key) with
  | none =>
    rw [or_iff_right]
    · rfl
    · rintro ⟨op, hop, hkey⟩
      have hnone := List.find?_eq_none.mp hlast op (List.mem_reverse.mpr hop)
      exact hnone (decide_eq_true hkey)
  | some op =>
    have hop := List.mem_reverse.mp (List.mem_of_find?_eq_some hlast)
    have hkey := of_decide_eq_true (List.find?_some (p := fun op : Op => op.key = key) hlast)
    exact iff_of_true rfl (.inl ⟨op, hop, hkey⟩)

/-! ## The operation on the changed line -/

/-- The number that the replay of a journal over a snapshot has reached when it
comes to one of its operations. -/
def Snapshot.reached (snapshot : Snapshot) (op : Op) : ℕ := max snapshot.sequence (op.sequence - 1)

/-- **When a changed line does no harm**: it stands between the lines of
`before` and of `after`, over a snapshot, and reads as `read` where `op` was
written. Either the start fails, or the change makes no difference to it. -/
inductive Harmless (R : Type) [Strconv R] (snapshot : Snapshot) (before : List Op) (op : Op)
    (after : List Op) (now : GoString → Time) (read : Op) : Prop where
  /-- Its number is `0`, or leaves a gap before it. -/
  | refused (h : read.sequence = 0 ∨ snapshot.reached op + 1 < read.sequence)
  /-- It is not passed over, and cannot be applied. -/
  | invalid (h : snapshot.reached op < read.sequence) (hinvalid : ¬ read.Valid R)
  /-- It is passed over, as was the operation that was written. -/
  | repeated (h : read.sequence ≤ snapshot.reached op) (hop : op.sequence ≤ snapshot.sequence)
  /-- It is passed over and another line follows, before which there is a gap if
  the operation that was written was not to be passed over. -/
  | gap (h : read.sequence ≤ snapshot.reached op) (hafter : after ≠ [])
  /-- It is applied in the place of `old`, to the same effect where no later
  operation writes. -/
  | equivalent (h : read.sequence = snapshot.reached op + 1) (old : Op) (hold : old ∈ op :: after)
      (hnum : old.sequence = read.sequence)
      (hsame : ∀ state, (Storage.mk before snapshot).Replays R state (snapshot.reached op) →
        ∀ key, (∃ later ∈ after, read.sequence < later.sequence ∧ later.key = key)
          ∨ visible (now key) (read.effect state) key = visible (now key) (old.effect state) key)

section

variable {R : Type} [Strconv R] {snapshot : Snapshot} {before after : List Op} {op read : Op}
  {now : GoString → Time}

/-- A journal is replayed from where its beginning was. -/
theorem Storage.replays_append {ops ops' : List Op} {state : State} {n : ℕ} :
    (Storage.mk (ops ++ ops') snapshot).Replays R state n ↔
      ∃ state₁ n₁, (Storage.mk ops snapshot).Replays R state₁ n₁
        ∧ NumberedLog.replay Op.sequence (applyOp R) ops' state₁ n₁ = .ok (state, n) := by
  simp only [Storage.replays_iff, NumberedLog.replay_append]
  constructor
  · rintro ⟨state₀, hload, h⟩
    cases hreplay : NumberedLog.replay Op.sequence (applyOp R) ops state₀ snapshot.sequence with
    | error err =>
      rw [hreplay] at h
      exact nomatch h
    | ok c =>
      rw [hreplay] at h
      exact ⟨c.1, c.2, ⟨state₀, hload, hreplay⟩, h⟩
  · rintro ⟨state₁, n₁, ⟨state₀, hload, hreplay⟩, h⟩
    exact ⟨state₀, hload, by rw [hreplay]; exact h⟩

/-- **Up to a line of a numbered journal** the replay has reached the number
before it, or the snapshot's. -/
theorem Storage.Replays.reached {m : ℕ}
    (hnum : NumberedLog.Numbered Op.sequence m (before ++ op :: after)) {state : State} {n : ℕ}
    (h : (Storage.mk (before ++ op :: after) snapshot).Replays R state n) :
    ∃ state₁, (Storage.mk before snapshot).Replays R state₁ (snapshot.reached op)
      ∧ NumberedLog.replay Op.sequence (applyOp R) (op :: after) state₁ (snapshot.reached op)
        = .ok (state, n) := by
  obtain ⟨state₁, n₁, hbefore, hafter⟩ := replays_append.mp h
  obtain ⟨hnum₁, hop, _⟩ := NumberedLog.numbered_append.mp hnum
  obtain ⟨state₀, hload, hreplay⟩ := replays_iff.mp hbefore
  have hbase : m ≤ snapshot.sequence := by
    cases before with
    | nil =>
      cases hreplay
      exact NumberedLog.le_of_replay hop hafter
    | cons first before => exact NumberedLog.le_of_replay hnum₁.1 hreplay
  obtain ⟨_, hn₁⟩ := (NumberedLog.replay_batch_iff hnum₁ hbase).mp hreplay
  have hreached : n₁ = snapshot.reached op := by
    rw [hn₁, Snapshot.reached, hop]
    rfl
  subst hreached
  exact ⟨state₁, hbefore, hafter⟩

/-- An operation that has the next number is applied, and after it those that
are later in the journal. -/
theorem replay_next {after : List Op} {read : Op} {q n n' : ℕ} {state state' : State}
    (hnum : NumberedLog.Numbered Op.sequence q after) (hq : q ≤ n + 1)
    (hread : read.sequence = n + 1) :
    NumberedLog.replay Op.sequence (applyOp R) (read :: after) state n = .ok (state', n') ↔
      (read.Valid R ∧ ∀ later ∈ after, n + 1 < later.sequence → later.Valid R)
        ∧ state' = (NumberedLog.firsts Op.sequence (n + 1) after).foldl Op.effect
            (read.effect state)
        ∧ n' = max (n + 1) (q + after.length) := by
  have hvalid : (∀ later ∈ after, n + 1 < later.sequence → later.Valid R) ↔
      ∀ later ∈ NumberedLog.firsts Op.sequence (n + 1) after, later.Valid R := by
    simp only [NumberedLog.mem_firsts hnum, and_imp]
  rw [NumberedLog.replay, if_neg (by omega), if_neg (by omega), if_neg (by omega), hvalid]
  cases happly : applyOp R state read with
  | error err =>
    refine ⟨fun h => ?_, fun h => ?_⟩
    · cases h
    · rw [h.1.1.applyOp] at happly
      cases happly
  | ok state₁ =>
    obtain ⟨hv, rfl⟩ := applyOp_ok_iff.mp happly
    dsimp only
    rw [hread, NumberedLog.replay_batch_iff hnum hq, foldlM_applyOp_ok_iff, and_iff_right hv,
      and_assoc]

/-- A batch that has the next number is applied from there on. -/
theorem replay_of_mem {ops : List Op} {old : Op} {q n n' : ℕ} {state state' : State}
    (hnum : NumberedLog.Numbered Op.sequence q ops) (hq : q ≤ n) (hold : old ∈ ops)
    (hnext : old.sequence = n + 1)
    (h : NumberedLog.replay Op.sequence (applyOp R) ops state n = .ok (state', n')) :
    (∀ later ∈ ops, n + 1 < later.sequence → later.Valid R)
      ∧ state' = (NumberedLog.firsts Op.sequence (n + 1) ops).foldl Op.effect (old.effect state)
      ∧ n' = q + ops.length := by
  obtain ⟨happly, hn'⟩ := (NumberedLog.replay_batch_iff hnum hq).mp h
  rw [NumberedLog.firsts_eq_cons hnum hq hold hnext, foldlM_applyOp_ok_iff] at happly
  obtain ⟨hvalid, hstate⟩ := happly
  have hlen : n + 1 ≤ q + ops.length :=
    (NumberedLog.exists_mem_of_numbered hnum (by omega)).mp ⟨old, hold, hnext⟩
  refine ⟨fun later hlater hlt => hvalid later (List.mem_cons_of_mem _ ?_), hstate, by omega⟩
  exact (NumberedLog.mem_firsts hnum).mpr ⟨hlater, hlt⟩

/-- What a replay gives instead of another, if it gives anything, looks the same
at the start, and has the same number. -/
def SameStart (now : GoString → Time) (replayed : Except (NumberedLog.Fault Err) (State × ℕ))
    (state : State) (n : ℕ) : Prop :=
  ∀ state' n', replayed = .ok (state', n') →
    (∀ key, visible (now key) state' key = visible (now key) state key) ∧ n' = n

/-- A changed operation in the place of `old`. -/
theorem sameStart_next_iff {old : Op} {n n' : ℕ} {state state' : State}
    (hnum : NumberedLog.Numbered Op.sequence op.sequence after) (hop : 0 < op.sequence)
    (hn : op.sequence ≤ n + 1) (hold : old ∈ op :: after) (hnext : old.sequence = n + 1)
    (hread : read.sequence = n + 1) (hvalid : read.Valid R)
    (h : NumberedLog.replay Op.sequence (applyOp R) (op :: after) state n = .ok (state', n')) :
    SameStart now (NumberedLog.replay Op.sequence (applyOp R) (read :: after) state n) state' n'
      ↔ ∀ key, (∃ later ∈ after, read.sequence < later.sequence ∧ later.key = key)
          ∨ visible (now key) (read.effect state) key
            = visible (now key) (old.effect state) key := by
  have hbatch : NumberedLog.Numbered Op.sequence (op.sequence - 1) (op :: after) := by
    rw [NumberedLog.Numbered, Nat.sub_add_cancel hop]
    exact ⟨rfl, hnum⟩
  obtain ⟨hlater, hstate', hn'⟩ := replay_of_mem hbatch (by omega) hold hnext h
  have hpass : NumberedLog.firsts Op.sequence (n + 1) (op :: after)
      = NumberedLog.firsts Op.sequence (n + 1) after := by
    rw [NumberedLog.firsts, if_neg (by omega)]
  rw [hpass] at hstate'
  have hlen : n + 1 ≤ op.sequence + after.length := by
    have hbelow : op.sequence - 1 < n + 1 := by omega
    have hmem := (NumberedLog.exists_mem_of_numbered hbatch hbelow).mp ⟨old, hold, hnext⟩
    rw [List.length_cons] at hmem
    omega
  rw [List.length_cons] at hn'
  -- the later operations are the same in both
  have hsame : ∀ key, visible (now key) ((NumberedLog.firsts Op.sequence (n + 1) after).foldl
        Op.effect (read.effect state)) key = visible (now key) state' key ↔
      (∃ later ∈ after, read.sequence < later.sequence ∧ later.key = key)
        ∨ visible (now key) (read.effect state) key = visible (now key) (old.effect state) key := by
    intro key
    rw [hstate', visible_foldl_effect_iff, hread]
    simp only [NumberedLog.mem_firsts hnum, and_assoc]
  constructor
  · intro hstart key
    have hvalid' : read.Valid R ∧ ∀ later ∈ after, n + 1 < later.sequence → later.Valid R :=
      ⟨hvalid, fun later hmem => hlater later (List.mem_cons_of_mem _ hmem)⟩
    exact (hsame key).mp ((hstart _ _ ((replay_next hnum hn hread).mpr ⟨hvalid', rfl, rfl⟩)).1 key)
  · intro hkeys state'' n'' hgives
    obtain ⟨_, rfl, rfl⟩ := (replay_next hnum hn hread).mp hgives
    exact ⟨fun key => (hsame key).mpr (hkeys key), by omega⟩

/-- An operation that is passed over. -/
theorem replay_passed {after : List Op} {n : ℕ} {state : State} (h0 : read.sequence ≠ 0)
    (hle : read.sequence ≤ n) :
    NumberedLog.replay Op.sequence (applyOp R) (read :: after) state n
      = NumberedLog.replay Op.sequence (applyOp R) after state n := by
  rw [NumberedLog.replay, if_neg h0, if_pos hle]

theorem le_reached (snapshot : Snapshot) (op : Op) : op.sequence ≤ snapshot.reached op + 1 := by
  unfold Snapshot.reached
  omega

/-- A change without effect on the start is harmless. -/
theorem harmless_of_sameStart {state₁ state : State} {n : ℕ}
    (hbefore : (Storage.mk before snapshot).Replays R state₁ (snapshot.reached op))
    (hpos : 0 < op.sequence) (hafter : NumberedLog.Numbered Op.sequence op.sequence after)
    (hreplay : NumberedLog.replay Op.sequence (applyOp R) (op :: after) state₁ (snapshot.reached op)
      = .ok (state, n))
    (hsame : SameStart now (NumberedLog.replay Op.sequence (applyOp R) (read :: after) state₁
      (snapshot.reached op)) state n) :
    Harmless R snapshot before op after now read := by
  have hn := le_reached snapshot op
  by_cases h0 : read.sequence = 0
  · exact .refused (.inl h0)
  rcases Nat.lt_trichotomy read.sequence (snapshot.reached op + 1) with hlt | hread | hgt
  · have hle := Nat.le_of_lt_succ hlt
    by_cases hincluded : op.sequence ≤ snapshot.sequence
    · exact .repeated hle hincluded
    refine .gap hle ?_
    rintro rfl
    -- the last operation is lost, and its number with it
    obtain ⟨_, hn'⟩ := hsame _ _ (replay_passed h0 hle)
    have hnext : op.sequence = snapshot.reached op + 1 := by
      unfold Snapshot.reached
      omega
    obtain ⟨_, _, hlast⟩ := (replay_next hafter hn hnext).mp hreplay
    omega
  · by_cases hvalid : read.Valid R
    · by_cases hold : ∃ old ∈ op :: after, old.sequence = snapshot.reached op + 1
      · obtain ⟨old, hold, hnext⟩ := hold
        refine .equivalent hread old hold (hnext.trans hread.symm) (fun state₂ hbefore' => ?_)
        obtain ⟨rfl, _⟩ := hbefore.unique hbefore'
        exact (sameStart_next_iff hafter hpos hn hold hnext hread hvalid hreplay).mp hsame
      · -- the snapshot includes all that is there, and not `read`
        have hbatch : NumberedLog.Numbered Op.sequence (op.sequence - 1) (op :: after) := by
          rw [NumberedLog.Numbered, Nat.sub_add_cancel hpos]
          exact ⟨rfl, hafter⟩
        rw [NumberedLog.exists_mem_of_numbered hbatch (by omega), List.length_cons] at hold
        have hincluded : op.sequence ≤ snapshot.reached op := by omega
        have hlater : ∀ later ∈ after, snapshot.reached op + 1 < later.sequence →
            later.Valid R := by
          intro later hmem hlt
          have := (NumberedLog.exists_mem_of_numbered hafter (hn.trans_lt hlt)).mp
            ⟨later, hmem, rfl⟩
          omega
        obtain ⟨_, hsame'⟩ := hsame _ _
          ((replay_next hafter hn hread).mpr ⟨⟨hvalid, hlater⟩, rfl, rfl⟩)
        rw [replay_passed hpos.ne' hincluded] at hreplay
        obtain ⟨_, hlast⟩ := (NumberedLog.replay_batch_iff hafter hincluded).mp hreplay
        omega
    · exact .invalid (by omega) hvalid
  · exact .refused (.inr hgt)

/-- A harmless change has no effect on the start. -/
theorem Harmless.sameStart {state₁ state : State} {n : ℕ}
    (h : Harmless R snapshot before op after now read)
    (hbefore : (Storage.mk before snapshot).Replays R state₁ (snapshot.reached op))
    (hpos : 0 < op.sequence) (hafter : NumberedLog.Numbered Op.sequence op.sequence after)
    (hreplay : NumberedLog.replay Op.sequence (applyOp R) (op :: after) state₁ (snapshot.reached op)
      = .ok (state, n)) :
    SameStart now (NumberedLog.replay Op.sequence (applyOp R) (read :: after) state₁
      (snapshot.reached op)) state n := by
  intro state' n' hgives
  have hn := le_reached snapshot op
  have h0 : read.sequence ≠ 0 := by
    intro h0
    rw [NumberedLog.replay, if_pos h0] at hgives
    cases hgives
  have hpassed : op.sequence ≤ snapshot.reached op →
      NumberedLog.replay Op.sequence (applyOp R) after state₁ (snapshot.reached op)
        = .ok (state, n) := fun hle => (replay_passed hpos.ne' hle).symm.trans hreplay
  cases h with
  | refused h =>
    rw [NumberedLog.replay, if_neg h0, if_neg (by omega), if_pos (by omega)] at hgives
    cases hgives
  | invalid h hinvalid =>
    rw [NumberedLog.replay, if_neg h0, if_neg (by omega)] at hgives
    split_ifs at hgives
    cases happly : applyOp R state₁ read with
    | error err =>
      rw [happly] at hgives
      cases hgives
    | ok state₂ => exact absurd (applyOp_ok_iff.mp happly).1 hinvalid
  | repeated h hincluded =>
    rw [replay_passed h0 h, hpassed (hincluded.trans (le_max_left _ _))] at hgives
    cases hgives
    exact ⟨fun _ => rfl, rfl⟩
  | gap h hne =>
    rw [replay_passed h0 h] at hgives
    by_cases hincluded : op.sequence ≤ snapshot.reached op
    · rw [hpassed hincluded] at hgives
      cases hgives
      exact ⟨fun _ => rfl, rfl⟩
    · obtain ⟨next, rest, rfl⟩ := List.exists_cons_of_ne_nil hne
      exact absurd (NumberedLog.le_of_replay hafter.1 hgives) hincluded
  | equivalent hread old hold hnext hkeys =>
    have hvalid : read.Valid R := ((replay_next hafter hn hread).mp hgives).1.1
    exact (sameStart_next_iff hafter hpos hn hold (hnext.trans hread) hread hvalid hreplay).mpr
      (hkeys state₁ hbefore) _ _ hgives

/-- **The list is complete**: the start on a journal with one line changed fails
or gives what it would have given if and only if the change is harmless. -/
theorem sameStart_iff {m : ℕ}
    (hnum : NumberedLog.Numbered Op.sequence m (before ++ op :: after)) {state : State} {n : ℕ}
    (h : (Storage.mk (before ++ op :: after) snapshot).Replays R state n) :
    (∀ state' n', (Storage.mk (before ++ read :: after) snapshot).Replays R state' n' →
        (∀ key, visible (now key) state' key = visible (now key) state key) ∧ n' = n)
      ↔ Harmless R snapshot before op after now read := by
  obtain ⟨state₁, hbefore, hreplay⟩ := h.reached hnum
  obtain ⟨_, hop, hafter⟩ := NumberedLog.numbered_append.mp hnum
  have hpos : 0 < op.sequence := hop ▸ Nat.succ_pos _
  rw [← hop] at hafter
  -- up to the changed line the two replays are one
  have hchanged : ∀ state' n', (Storage.mk (before ++ read :: after) snapshot).Replays R state' n' ↔
      NumberedLog.replay Op.sequence (applyOp R) (read :: after) state₁ (snapshot.reached op)
        = .ok (state', n') := by
    intro state' n'
    refine Storage.replays_append.trans ⟨?_, fun h => ⟨_, _, hbefore, h⟩⟩
    rintro ⟨state₂, n₂, hbefore', hreplay'⟩
    obtain ⟨rfl, rfl⟩ := hbefore.unique hbefore'
    exact hreplay'
  simp only [hchanged]
  exact ⟨harmless_of_sameStart hbefore hpos hafter hreplay,
    fun h => h.sameStart hbefore hpos hafter hreplay⟩

end

/-! ## The changed file -/

section

variable [EncodingJSON]

namespace FileStorage

/-- What `AppendAOF` writes, whatever the bytes of its texts, is read back with
its texts coerced to UTF-8. -/
theorem exists_lines_coerced [EncodingJSON.Coercing] {ops : List Op} {data : GoString}
    (hops : ∀ op ∈ ops, op.sequence < 2 ^ 64) (h : encode ops = .ok data) :
    ∃ lines : List (Line newline), data = join lines
      ∧ ∀ i, decode i (lines.map (·.text)) = .ok (ops.map Op.coerced) := by
  induction ops generalizing data with
  | nil =>
    obtain rfl := Except.ok.inj h
    exact ⟨[], rfl, fun _ => rfl⟩
  | cons op ops ih =>
    obtain ⟨line, hmarshal, hne, hunmarshal⟩ :=
      EncodingJSON.Coercing.marshalOp_coerced (hops op List.mem_cons_self)
    rw [encode, hmarshal] at h
    dsimp only at h
    cases hdata : encode ops with
    | error err =>
      rw [hdata] at h
      cases h
    | ok data' =>
      rw [hdata] at h
      obtain ⟨lines, rfl, hread⟩ :=
        ih (fun op' hop' => hops op' (List.mem_cons_of_mem _ hop')) hdata
      refine ⟨line :: lines, (Except.ok.inj h).symm.trans (join_cons _ _).symm, fun i => ?_⟩
      rw [List.map_cons, decode, if_neg hne, hunmarshal]
      dsimp only
      rw [hread]
      rfl

/-- Lines between others are read between them. -/
theorem decode_between {before ops after : List Op} {l₁ l l₂ : List GoString}
    (h₁ : ∀ i, decode i l₁ = .ok before) (h : ∀ i, decode i l = .ok ops)
    (h₂ : ∀ i, decode i l₂ = .ok after) :
    decode 0 (l₁ ++ (l ++ l₂)) = .ok (before ++ (ops ++ after)) := by
  rw [decode_append, h₁, decode_append]
  show ((decode _ l).bind _).map _ = _
  rw [h]
  show ((decode _ l₂).map _).map _ = _
  rw [h₂]
  rfl

/-- A line cut in two by a newline does not read as two. -/
theorem decode_cut [EncodingJSON.Delimited] {op : Op} {u v : GoString} {x : UInt8}
    (hline : EncodingJSON.marshalOp op = .ok (u ++ x :: v)) (rest : List GoString) (i : ℕ) :
    ∃ err, decode i (u :: v :: rest) = .error err := by
  by_cases hu : u = []
  · subst hu
    obtain ⟨hv, err, herr⟩ := EncodingJSON.Delimited.unmarshalOp_tail hline
    rw [decode, if_pos rfl, decode, if_neg hv, herr]
    exact ⟨_, rfl⟩
  · obtain ⟨err, herr⟩ := EncodingJSON.Delimited.unmarshalOp_prefix hline (List.cons_ne_nil x v)
    rw [decode, if_neg hu, herr]
    exact ⟨_, rfl⟩

end FileStorage

namespace Engine

variable {R : Type} [LinearOrder R] [Zero R] [Strconv R] {s : FileStorage} {disk : Disk}
  {abs : GoString → Except Err GoString} {cfg : Config} {r : RestoreOrders}
  {now : GoString → Time} {e : Engine R}

/-- **What is opened** is what the lines of the journal replay to, over the
snapshot. -/
theorem openFiles_iff {lines : List (Line newline)} (h : disk.contents s.aofPath = join lines)
    {snapshot : Snapshot} (hsnapshot : s.readSnapshot disk .ok = .ok snapshot) :
    (∃ disk', openFiles abs s disk cfg r now .ok {} = (.ok e, disk')) ↔
      ∃ ops, FileStorage.decode 0 (lines.map (·.text)) = .ok ops
        ∧ newWithStorage abs (some (Storage.mk ops snapshot)) cfg r now {} = .ok e := by
  have hcontents : disk.contents s.aofPath = join lines ++ (blank : Line newline).text :=
    h.trans (List.append_nil _).symm
  constructor
  · rintro ⟨disk', hopen⟩
    obtain ⟨snapshot', ops, hsnapshot', hjournal, hnew⟩ := openFiles_reads hopen
    obtain rfl := Except.ok.inj (hsnapshot.symm.trans hsnapshot')
    refine ⟨ops, ?_, hnew⟩
    cases hread : FileStorage.decode 0 (lines.map (·.text)) with
    | error err =>
      rw [s.readAOF_error hcontents hread] at hjournal
      exact nomatch hjournal
    | ok ops' =>
      obtain ⟨disk'', hspec, _⟩ := s.readAOF_spec hcontents hread
      rw [hspec] at hjournal
      cases hjournal
      rfl
  · rintro ⟨ops, hread, hnew⟩
    exact openFiles_of_holds ⟨h ▸ FileStorage.wellFormed_join hread, hsnapshot⟩ hnew

/-- A start on other files with the same snapshot fails, or gives the same
entries and the same number, where what they replay to looks the same. -/
theorem same_iff {snapshot : Snapshot} {journal' : List Op} {disk' : Disk}
    (hcfg : cfg.validate abs = .ok ())
    (hopens : ∀ e' : Engine R,
      (∃ disk'', openFiles abs s disk' cfg r now .ok {} = (.ok e', disk'')) ↔
      newWithStorage abs (some (Storage.mk journal' snapshot)) cfg r now {} = .ok e')
    {state : State} {n : ℕ} (hstate : e.state = dropExpired r.expiry now state)
    (hn : e.sequence = n) :
    (∀ (e' : Engine R) disk'', openFiles abs s disk' cfg r now .ok {} = (.ok e', disk'') →
        e'.state = e.state ∧ e'.sequence = e.sequence) ↔
      ∀ state' n', (Storage.mk journal' snapshot).Replays R state' n' →
        (∀ key, visible (now key) state' key = visible (now key) state key) ∧ n' = n := by
  have hext : ∀ state' : State, dropExpired r.expiry now state' = dropExpired r.expiry now state ↔
      ∀ key, visible (now key) state' key = visible (now key) state key := by
    intro state'
    refine ⟨fun h key => ?_, fun h => Finmap.ext_lookup (fun key => ?_)⟩
    · rw [← lookup_dropExpired r.expiry, ← lookup_dropExpired r.expiry, h]
    · rw [lookup_dropExpired, lookup_dropExpired, h]
  constructor
  · intro hsame state' n' hreplays
    obtain ⟨e', hnew, hstate', hn'⟩ := newWithStorage_of_replays (R := R) r now hcfg hreplays
    obtain ⟨disk'', hopen⟩ := (hopens e').mpr hnew
    obtain ⟨hs, hseq⟩ := hsame e' disk'' hopen
    rw [hstate', hstate] at hs
    exact ⟨(hext state').mp hs, by rw [← hn', hseq, hn]⟩
  · intro hsame e' disk'' hopen
    obtain ⟨_, state', n', _, hreplays, _, rfl⟩ :=
      newWithStorage_restored ((hopens e').mp ⟨disk'', hopen⟩)
    obtain ⟨hvisible, rfl⟩ := hsame state' n' hreplays
    rw [hstate, hn]
    exact ⟨(hext state').mpr hvisible, rfl⟩

/-- Nothing is opened where a line does not read. -/
theorem not_opened {ops : List Op} {lines₁ lines : List (Line newline)}
    (hread : ∀ i, FileStorage.decode i (lines₁.map (·.text)) = .ok ops)
    (herr : ∀ i, ∃ err, FileStorage.decode i (lines.map (·.text)) = .error err)
    (h : disk.contents s.aofPath = join (lines₁ ++ lines)) {snapshot : Snapshot}
    (hsnapshot : s.readSnapshot disk .ok = .ok snapshot) {disk' : Disk} :
    openFiles abs s disk cfg r now .ok {} ≠ (.ok e, disk') := by
  intro hopen
  obtain ⟨ops, hops, _⟩ := (openFiles_iff h hsnapshot).mp ⟨disk', hopen⟩
  obtain ⟨err, herr⟩ := herr (0 + (lines₁.map (·.text)).length)
  rw [List.map_append, FileStorage.decode_append, hread] at hops
  dsimp only [Except.bind] at hops
  rw [herr] at hops
  exact nomatch hops

/-- **What is opened** where the journal is a line between others. -/
theorem openFiles_line_iff {before after : List Op} {read : Op}
    {lines₁ lines₂ : List (Line newline)}
    (hread₁ : ∀ i, FileStorage.decode i (lines₁.map (·.text)) = .ok before)
    (hread₂ : ∀ i, FileStorage.decode i (lines₂.map (·.text)) = .ok after)
    {line : Line newline} (hne : line.text ≠ [])
    (hline : EncodingJSON.unmarshalOp line.text = .ok read)
    (h : disk.contents s.aofPath = join (lines₁ ++ (line :: lines₂))) {snapshot : Snapshot}
    (hsnapshot : s.readSnapshot disk .ok = .ok snapshot) :
    (∃ disk', openFiles abs s disk cfg r now .ok {} = (.ok e, disk')) ↔
      newWithStorage abs (some (Storage.mk (before ++ read :: after) snapshot)) cfg r now {}
        = .ok e := by
  have hops : FileStorage.decode 0 (lines₁.map (·.text) ++ ([line.text] ++ lines₂.map (·.text)))
      = .ok (before ++ ([read] ++ after)) := by
    refine FileStorage.decode_between hread₁ (fun i => ?_) hread₂
    rw [FileStorage.decode, if_neg hne, hline]
    rfl
  rw [openFiles_iff h hsnapshot, List.map_append, List.map_cons]
  constructor
  · rintro ⟨ops, hops', hnew⟩
    obtain rfl := Except.ok.inj (hops.symm.trans hops')
    exact hnew
  · exact fun hnew => ⟨_, hops, hnew⟩

/-- **A start on a journal in which one byte has changed** fails, or gives the
entries and the number that it would have given, if and only if the byte is now a
newline, or the line does not read, or what it reads as does no harm. The journal
is what `AppendAOF` writes for operations numbered one by one. -/
theorem no_silent_start_iff [EncodingJSON.Coercing] [EncodingJSON.Delimited]
    (hpaths : s.aofPath ≠ s.snapshotPath) {before after : List Op} {op : Op} {m : ℕ}
    (hnum : NumberedLog.Numbered Op.sequence m (before ++ op :: after))
    (hbound : ∀ op' ∈ before ++ op :: after, op'.sequence < 2 ^ 64)
    {l₁ l₂ u v : GoString} {x y : UInt8} (hbefore : FileStorage.encode before = .ok l₁)
    (hline : EncodingJSON.marshalOp op = .ok (u ++ x :: v))
    (hafter : FileStorage.encode after = .ok l₂)
    (hdisk : disk.contents s.aofPath = l₁ ++ ((u ++ x :: v) ++ newline :: l₂))
    {snapshot : Snapshot} (hsnapshot : s.readSnapshot disk .ok = .ok snapshot) {disk' : Disk}
    (hopen : openFiles abs s disk cfg r now .ok {} = (.ok e, disk')) :
    (∀ (e' : Engine R) disk'', openFiles abs s
          (disk.insert s.aofPath (l₁ ++ ((u ++ y :: v) ++ newline :: l₂))) cfg r now .ok {}
            = (.ok e', disk'') →
        e'.state = e.state ∧ e'.sequence = e.sequence) ↔
      y = newline ∨ (∃ err, EncodingJSON.unmarshalOp (u ++ y :: v) = .error err)
        ∨ ∃ read, EncodingJSON.unmarshalOp (u ++ y :: v) = .ok read
          ∧ Harmless R snapshot (before.map Op.coerced) op.coerced (after.map Op.coerced) now read := by
  obtain ⟨lines₁, rfl, hread₁⟩ := FileStorage.exists_lines_coerced
    (fun op' hop' => hbound op' (List.mem_append_left _ hop')) hbefore
  obtain ⟨lines₂, rfl, hread₂⟩ := FileStorage.exists_lines_coerced
    (fun op' hop' => hbound op' (List.mem_append_right _ (List.mem_cons_of_mem _ hop'))) hafter
  obtain ⟨line, hmarshal, hne, hunmarshal⟩ := EncodingJSON.Coercing.marshalOp_coerced
    (hbound op (List.mem_append_right _ List.mem_cons_self))
  have htext : line.text = u ++ x :: v := Except.ok.inj (hmarshal.symm.trans hline)
  have hu : newline ∉ u := fun hb => line.single (htext ▸ List.mem_append_left _ hb)
  have hv : newline ∉ v := fun hb =>
    line.single (htext ▸ List.mem_append_right _ (List.mem_cons_of_mem _ hb))
  -- what the journal gives
  obtain ⟨state, n, hreplays, hcfg, hstate, hn⟩ : ∃ state n,
      (Storage.mk (before.map Op.coerced ++ op.coerced :: after.map Op.coerced) snapshot).Replays R
        state n ∧ cfg.validate abs = .ok () ∧ e.state = dropExpired r.expiry now state
        ∧ e.sequence = n := by
    have hjoin : disk.contents s.aofPath = join (lines₁ ++ line :: lines₂) := by
      rw [hdisk, join_append, join_cons, htext]
    obtain ⟨hcfg, state, n, _, hreplays, _, rfl⟩ := newWithStorage_restored
      ((openFiles_line_iff hread₁ hread₂ hne hunmarshal hjoin hsnapshot).mp ⟨disk', hopen⟩)
    exact ⟨state, n, hreplays, hcfg, rfl, rfl⟩
  -- the changed journal, over the same snapshot
  have hcontents := Disk.contents_insert disk s.aofPath
    (join lines₁ ++ ((u ++ y :: v) ++ newline :: join lines₂))
  have hsame : s.readSnapshot (Finmap.insert s.aofPath
      (join lines₁ ++ ((u ++ y :: v) ++ newline :: join lines₂)) disk) .ok = .ok snapshot :=
    (FileStorage.readSnapshot_congr (Finmap.lookup_insert_of_ne _ hpaths.symm)).trans hsnapshot
  generalize Finmap.insert s.aofPath (join lines₁ ++ ((u ++ y :: v) ++ newline :: join lines₂)) disk
    = changed at hcontents hsame ⊢
  by_cases hy : y = newline
  · subst hy
    have hjoin : Disk.contents changed s.aofPath
        = join (lines₁ ++ (⟨u, hu⟩ :: ⟨v, hv⟩ :: lines₂)) := by
      rw [hcontents, join_append, join_cons, join_cons, List.append_assoc]
      rfl
    have herr : ∀ i, ∃ err, FileStorage.decode i
        (((⟨u, hu⟩ : Line newline) :: ⟨v, hv⟩ :: lines₂).map (·.text)) = .error err :=
      fun i => FileStorage.decode_cut hline _ i
    exact iff_of_true (fun e' disk'' hopen' => absurd hopen' (not_opened hread₁ herr hjoin hsame))
      (.inl rfl)
  have hnew : newline ∉ u ++ y :: v := by
    rw [List.mem_append, List.mem_cons, not_or, not_or]
    exact ⟨hu, Ne.symm hy, hv⟩
  have hne' : u ++ y :: v ≠ [] := List.append_ne_nil_of_right_ne_nil _ (List.cons_ne_nil _ _)
  have hjoin : Disk.contents changed s.aofPath
      = join (lines₁ ++ (⟨u ++ y :: v, hnew⟩ :: lines₂)) := by
    rw [hcontents, join_append, join_cons]
  rw [or_iff_right hy]
  cases hchanged : EncodingJSON.unmarshalOp (u ++ y :: v) with
  | error err =>
    refine iff_of_true (fun e' disk'' hopen' => absurd hopen' (not_opened hread₁ (fun i => ?_) hjoin
      hsame)) (.inl ⟨err, rfl⟩)
    rw [List.map_cons, FileStorage.decode, if_neg hne', hchanged]
    exact ⟨_, rfl⟩
  | ok read =>
    have hnum' : NumberedLog.Numbered Op.sequence m
        (before.map Op.coerced ++ op.coerced :: after.map Op.coerced) := by
      rw [← List.map_cons, ← List.map_append]
      exact NumberedLog.numbered_map.mpr hnum
    rw [same_iff hcfg (fun e' => openFiles_line_iff hread₁ hread₂ hne' hchanged hjoin hsame)
      hstate hn, sameStart_iff hnum' hreplays, or_iff_right (by rintro ⟨err, h⟩; cases h)]
    refine ⟨fun h => ⟨read, rfl, h⟩, ?_⟩
    rintro ⟨read', hread', h⟩
    exact Except.ok.inj hread' ▸ h

end Engine

end

/-! ## Two changes -/

/-- The line of the SET of a key `k`, with these bytes for its number and its
value. -/
def setLine (number value : UInt8) : GoString :=
  str "\x7b\"sequence\":" ++ number :: (str ",\"kind\":\"SET\",\"key\":\"k\",\"value\":\""
    ++ value :: str "\",\"isNumber\":false,\"expiresAt\":0\x7d")

/-- A journal of these bytes, and no snapshot. -/
def journalOf (data : GoString) : Disk := Finmap.insert files.aofPath data ∅

set_option maxRecDepth 8000 in
/-- Where the number of the second of three lines changes, no start succeeds. -/
theorem no_silent_start_gap :
    let disk : Disk := journalOf ((setLine 49 97 ++ [newline]) ++ (setLine 50 98
      ++ newline :: (setLine 51 99 ++ [newline])))
    let changed : Disk := Finmap.insert files.aofPath ((setLine 49 97 ++ [newline])
      ++ (setLine 49 98 ++ newline :: (setLine 51 99 ++ [newline]))) disk
    ∃ (e : Engine ℕ) (disk' : Disk), Engine.openFiles Except.ok files disk Config.default
        RestoreOrders.sorted (fun _ => 0) .ok {} = (.ok e, disk')
      ∧ ∀ (e' : Engine ℕ) disk'', Engine.openFiles Except.ok files changed Config.default
          RestoreOrders.sorted (fun _ => 0) .ok {} = (.ok e', disk'') →
        e'.state = e.state ∧ e'.sequence = e.sequence := by
  intro disk changed
  have hbound : ∀ op ∈ [setOp 1 "k" "a"] ++ setOp 2 "k" "b" :: [setOp 3 "k" "c"],
      op.sequence < 2 ^ 64 := by decide
  have hnum : NumberedLog.Numbered Op.sequence 0
      ([setOp 1 "k" "a"] ++ setOp 2 "k" "b" :: [setOp 3 "k" "c"]) := ⟨rfl, rfl, rfl, trivial⟩
  have hopens : (Engine.openFiles (R := ℕ) Except.ok files disk Config.default RestoreOrders.sorted
      (fun _ => 0) .ok {}).1.isOk = true := by decide
  cases hopen : Engine.openFiles (R := ℕ) Except.ok files disk Config.default RestoreOrders.sorted
      (fun _ => 0) .ok {} with
  | mk result disk' =>
    rw [hopen] at hopens
    cases result with
    | error err => exact nomatch hopens
    | ok e =>
      have hread : EncodingJSON.unmarshalOp (setLine 49 98) = .ok (setOp 1 "k" "b") := rfl
      exact ⟨e, disk', rfl, (Engine.no_silent_start_iff (by decide) hnum hbound rfl rfl rfl
        (Disk.contents_insert _ _ _) rfl hopen).mpr
          (.inr (.inr ⟨_, hread, .gap (by decide) (List.cons_ne_nil _ _)⟩))⟩

set_option maxRecDepth 8000 in
/-- **Where the byte of a value changes**, the start succeeds and gives the other
value. -/
theorem one_byte_changed :
    files.appendAOF ∅ [setOp 1 "k" "a"] {} = (.nil, journalOf (setLine 49 97 ++ [newline]))
      ∧ (Engine.openFiles (R := ℕ) Except.ok files (journalOf (setLine 49 97 ++ [newline]))
          Config.default RestoreOrders.sorted (fun _ => 0) .ok {}).1.map
            (fun e => (e.get (str "k") 0).1) = .ok (.ok (str "a"))
      ∧ (Engine.openFiles (R := ℕ) Except.ok files (journalOf (setLine 49 98 ++ [newline]))
          Config.default RestoreOrders.sorted (fun _ => 0) .ok {}).1.map
            (fun e => (e.get (str "k") 0).1) = .ok (.ok (str "b")) := ⟨rfl, rfl, rfl⟩

end WasmRedis
