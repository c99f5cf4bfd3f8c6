import WasmRedis.EngineInvariant

/-!
# After Close

Once `Close` has returned nil the storage belongs to whoever takes the file
locks next. Every operation that could write has to heed the closed flag, and
each does so in its own way: `set` and `Delete` refuse, the reads return what
they find and remove nothing, `Restore` refuses, `Flush` finds an empty buffer.
`Snapshot` does not look at the flag, and writes and clears as if the engine
were open (`snapshot_after_close`). It is the only one
(`untouched_after_close`).
-/

namespace WasmRedis

open GoString

variable {R : Type} [LinearOrder R] [Zero R] [Strconv R]

namespace Engine

/-! ## What is left to flush -/

/-- **Nothing is left to flush** in an engine that is closed, nor in one that
has no storage. -/
structure Flushed (e : Engine R) : Prop where
  /-- A closed engine has flushed its buffer. -/
  closed : e.closed = true → e.buffer = []
  /-- In memory mode nothing is recorded. -/
  memory : e.store = none → e.buffer = []

theorem Flushed.change {lo hi : Time} {e e' : Engine R} (hf : e.Flushed)
    (h : Change lo hi e e') : e'.Flushed where
  closed hcl := by
    rw [h.closed_eq_false] at hcl
    exact Bool.noConfusion hcl
  memory hs := by
    rw [h.frame.1] at hs
    rw [h.buffer_of_none hs]
    exact hf.memory hs

omit [LinearOrder R] [Zero R] [Strconv R] in
/-- A flush that returns nil leaves nothing in the buffer. -/
theorem Flushed.flush_nil {e : Engine R} (h : e.Flushed) {reply : Reply ℕ}
    (hnil : (e.flush reply).1 = .nil) : (e.flush reply).2.buffer = [] := by
  cases hs : e.store with
  | none =>
    rw [flush_of_none hs]
    exact h.memory hs
  | some store =>
    obtain ⟨ended, reached, _, heq⟩ := flush_cases hs reply
    rw [heq] at hnil ⊢
    exact if_pos hnil

omit [LinearOrder R] [Zero R] [Strconv R] in
theorem Flushed.flush {e : Engine R} (h : e.Flushed) (reply : Reply ℕ) :
    (e.flush reply).2.Flushed := by
  cases hs : e.store with
  | none => rwa [flush_of_none hs]
  | some store =>
    obtain ⟨ended, reached, _, heq⟩ := flush_cases hs reply
    rw [heq]
    refine ⟨fun hcl => ?_, nofun⟩
    show (if ended = .nil then [] else e.buffer) = []
    split_ifs
    · rfl
    · exact h.closed hcl

omit [LinearOrder R] [Zero R] [Strconv R] in
theorem Flushed.snapshot {e : Engine R} (h : e.Flushed) (r : RangeOrder GoString)
    (now : GoString → Time) (replies : SnapshotReplies) :
    (e.snapshot r now replies).2.Flushed := by
  cases hs : e.store with
  | none => rwa [snapshot_of_none hs]
  | some store =>
    have hflush := h.flush replies.append
    obtain ⟨_, heq⟩ | ⟨store', _, _, heq⟩ := snapshot_cases hs r now replies
    · rwa [heq]
    · obtain ⟨ended, store'', hcompact, _⟩ :=
        compact_cases r (e.flush replies.append).2 store' now replies.write replies.clear
      rw [heq, hcompact]
      exact ⟨hflush.closed, nofun⟩

theorem Flushed.restore {e : Engine R} (h : e.Flushed) (r : RestoreOrders)
    (now : GoString → Time) (fails : ReadFailures) : (e.restore r now fails).2.Flushed := by
  obtain ⟨_, heq⟩ | ⟨err, heq⟩ | ⟨store, state, sequence, index, _, _, hbuf, _, _, heq⟩ :=
    e.restore_cases r now fails
  · rwa [heq]
  · rwa [heq]
  · rw [heq]
    exact ⟨fun _ => hbuf, fun _ => hbuf⟩

omit [LinearOrder R] [Zero R] [Strconv R] in
theorem Flushed.close {e : Engine R} (h : e.Flushed) (reply : Reply ℕ) :
    (e.close reply).2.Flushed := by
  obtain ⟨_, heq⟩ | ⟨_, _, heq⟩ | ⟨_, hnil, heq⟩ := close_cases e reply
  · rwa [heq]
  · rw [heq]
    exact h.flush reply
  · have hbuf := h.flush_nil hnil
    rw [heq]
    exact ⟨fun _ => hbuf, fun _ => hbuf⟩

/-- **Every call keeps this.** -/
theorem call_flushed {e : Engine R} (h : e.Flushed) (c : Call) : (e.call c).2.Flushed := by
  by_cases hc : c.UsesStorage
  · cases c with
    | flush reply => exact h.flush reply
    | snapshot r now replies => exact h.snapshot r now replies
    | restore r now fails => exact h.restore r now fails
    | close reply => exact h.close reply
    | _ => exact hc.elim
  · obtain ⟨lo, hi, hw⟩ := Call.exists_within hc
    have hchanges : Changes lo hi e (e.call c).2 := call_changes hc hw
    generalize (e.call c).2 = e' at hchanges
    induction hchanges with
    | refl => exact h
    | tail _ hlast ih => exact ih.change hlast

theorem Opened.flushed {e : Engine R} (h : Opened e) : e.Flushed := by
  cases h with
  | new => exact ⟨fun _ => rfl, fun _ => rfl⟩
  | memory h =>
    rw [(newMemory_ok h).2]
    exact ⟨fun _ => rfl, fun _ => rfl⟩
  | @withStorage abs store cfg r now fails e h =>
    obtain ⟨s, _, _, hr⟩ := newWithStorage_ok h
    have hfresh : Flushed { (Engine.new : Engine R) with store := some s, cfg := cfg } :=
      ⟨fun _ => rfl, fun _ => rfl⟩
    have hs := hfresh.restore r now fails
    rwa [hr] at hs

theorem Reachable.flushed {e : Engine R} (h : e.Reachable) : e.Flushed := by
  obtain ⟨e₀, calls, hopened, rfl⟩ := h
  exact (admits_system e₀ calls).invariant hopened.flushed (fun _ c _ hf => call_flushed hf c)

/-! ## What a closed engine does -/

/-- The call is not a `Snapshot`, or there is no storage to write one to. -/
def HeedsClosed (e : Engine R) : Call → Prop
  | .snapshot _ _ _ => e.store = none
  | _ => True

/-- **A closed engine stays as it is**, its storage included, through any call
but a `Snapshot`. -/
theorem call_of_closed {e : Engine R} (hcl : e.closed = true) (hf : e.Flushed) {c : Call}
    (hc : e.HeedsClosed c) : (e.call c).2 = e := by
  have hchanges : ∀ {lo hi : Time} {e' : Engine R}, Changes lo hi e e' → e' = e := by
    intro lo hi e' h
    induction h with
    | refl => rfl
    | tail _ hlast ih =>
      subst ih
      have hopen := hlast.frame.2.2.symm.trans hlast.closed_eq_false
      rw [hcl] at hopen
      exact Bool.noConfusion hopen
  by_cases hs : c.UsesStorage
  · cases c with
    | flush reply => exact congrArg Prod.snd (flush_of_empty (hf.closed hcl) reply)
    | snapshot r now replies => exact congrArg Prod.snd (snapshot_of_none hc r now replies)
    | restore r now fails =>
      show (e.restore r now fails).2 = e
      obtain ⟨_, heq⟩ | ⟨err, heq⟩ | ⟨_, _, _, _, _, hopen, _⟩ := e.restore_cases r now fails
      · rw [heq]
      · rw [heq]
      · rw [hcl] at hopen
        exact Bool.noConfusion hopen
    | close reply =>
      show (e.close reply).2 = e
      unfold Engine.close
      rw [if_pos hcl]
    | _ => exact hs.elim
  · obtain ⟨lo, hi, hw⟩ := Call.exists_within hs
    exact hchanges (call_changes hs hw)

omit [LinearOrder R] [Zero R] [Strconv R] in
theorem close_nil_closed {e : Engine R} {reply : Reply ℕ} (h : (e.close reply).1 = .nil) :
    (e.close reply).2.closed = true := by
  obtain ⟨hcl, heq⟩ | ⟨_, hne, heq⟩ | ⟨_, _, heq⟩ := close_cases e reply
  · rwa [heq]
  · rw [heq] at h
    exact absurd h hne
  · rw [heq]

/-- **After Close has returned nil**, no run of calls without a `Snapshot` over a
storage changes anything: entries, index, buffer, number, and the journal and
the snapshot in the storage. -/
theorem untouched_after_close {e : Engine R} (h : e.Reachable) {reply : Reply ℕ}
    (hclose : (e.close reply).1 = .nil) {calls : List Call}
    (hcalls : ∀ c ∈ calls, (e.close reply).2.HeedsClosed c) :
    system.after (e.close reply).2 calls = (e.close reply).2 := by
  have hcl := close_nil_closed hclose
  have hf := h.flushed.close reply
  generalize (e.close reply).2 = e' at hcl hf hcalls
  induction calls with
  | nil => rfl
  | cons c calls ih =>
    show system.after (e'.call c).2 calls = e'
    rw [call_of_closed hcl hf (hcalls c List.mem_cons_self)]
    exact ih (fun c' hc' => hcalls c' (List.mem_cons_of_mem _ hc'))

/-- An engine over a storage, with one key that expires. -/
def lasting : Engine ℕ :=
  system.after { (new : Engine ℕ) with store := some Storage.empty }
    [.set (str "k") (str "v") false 5 0]

theorem lasting_reachable : lasting.Reachable :=
  ⟨{ (new : Engine ℕ) with store := some Storage.empty }, _,
    Opened.withStorage (show newWithStorage Except.ok (some Storage.empty) Config.default
      RestoreOrders.sorted (fun _ => 0) {} = .ok _ from rfl), rfl⟩

/-- Reads, writes, a flush and a second `Close`, once the engine is closed. -/
theorem untouched_after_close_lasting :
    system.after (lasting.close .ok).2
        [.get (str "k") 9, .set (str "k") (str "w") false 0 9, .delete (str "k"), .flush .ok,
          .sweepExpired RangeOrder.sorted 9, .restore RestoreOrders.sorted (fun _ => 9) {},
          .close .ok]
      = (lasting.close .ok).2 := by
  refine untouched_after_close lasting_reachable rfl (fun c hc => ?_)
  simp only [List.mem_cons, List.not_mem_nil, or_false] at hc
  rcases hc with rfl | rfl | rfl | rfl | rfl | rfl | rfl <;> trivial

/-- **`Snapshot` does not heed the closed flag.** The key was durable when
`Close` returned nil; a `Snapshot` after it, once the key has expired, writes a
snapshot without it and clears the journal. -/
theorem snapshot_after_close :
    ¬ ∀ (e : Engine ℕ) (reply : Reply ℕ) (calls : List Call), e.Reachable →
      (e.close reply).1 = .nil →
      (system.after (e.close reply).2 calls).store = (e.close reply).2.store := by
  intro h
  have hkept := h lasting .ok [.snapshot RangeOrder.sorted (fun _ => 9) {}] lasting_reachable rfl
  have hcleared : (system.after (lasting.close .ok).2
      [.snapshot RangeOrder.sorted (fun _ => 9) {}]).store
        = some { journal := [], snapshot := { sequence := 1, entries := ∅ } } := by decide
  have hjournal : (lasting.close .ok).2.store ≠ some
      { journal := [], snapshot := { sequence := 1, entries := ∅ } } := by decide
  exact hjournal (hkept.symm.trans hcleared)

end Engine

end WasmRedis
