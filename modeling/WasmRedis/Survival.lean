import WasmRedis.Durability
import WasmRedis.Foundation.Refinement
import WasmRedis.Interpreter

/-!
# What a crash leaves, as clients see it

A client knows nothing of operations, journals and buffers. For it the store is
a map, and a crash may bring back a map it has seen before. The ledger says
which: those since the last `Flush`, `Snapshot` or `Close` that returned nil, in
the state in which some call left them, and never one in the middle of a call.

`survival` follows a process over any number of starts, crashes and failing
storage calls, and finds one line of choices by which every answer of every life
is the one the ledger allows. It rests on the prefixes of what was recorded that
the storage may keep: a call that writes records one operation, and a call that
only removes what has expired records any number, none of which is seen.
-/

namespace WasmRedis

open GoString

/-! ## The specification -/

/-- **What a client expects of a store that may crash.** -/
structure Ledger where
  /-- The maps that a crash may bring back, beside the current one. -/
  kept : List Reference
  /-- The map. -/
  current : Reference
  /-- The duration of a SET that gives none. -/
  defaultTTL : ℤ

namespace Ledger

/-- Before the first start. -/
def new : Ledger := { kept := [], current := ∅, defaultTTL := 0 }

/-- The maps that a crash may bring back. -/
def maps (l : Ledger) : List Reference := l.kept ++ [l.current]

section

variable (R : Type) [LinearOrder R] [Zero R] [Strconv R] [TextLib]

/-- What may be answered, and what it leads to. -/
inductive Allows : Ledger → Happening → Option Answer → Ledger → Prop where
  /-- A call that does not use the storage is answered by the map. -/
  | call {l : Ledger} {c : Call} {before : Time} : ¬ c.UsesStorage →
      Allows l (.call c before) (l.current.turn R l.defaultTTL (.call c)).1
        { l with kept := l.maps, current := (l.current.turn R l.defaultTTL (.call c)).2 }
  /-- A call that uses the storage may fail. -/
  | failed {l : Ledger} {c : Call} {before : Time} {how : Return} : c.UsesStorage → how ≠ .nil →
      Allows l (.call c before) (some (.ended how)) l
  /-- Where it does not, no earlier map comes back. -/
  | acknowledged {l : Ledger} {c : Call} {before : Time} : c.UsesStorage →
      Allows l (.call c before) (some (.ended .nil)) { l with kept := [] }
  /-- The process stops. -/
  | stop {l : Ledger} : Allows l .stop none l
  /-- A start may fail. -/
  | refused {l : Ledger} {abs : GoString → Except Err GoString} {cfg : Config} {r : RestoreOrders}
      {now : GoString → Time} {fails : ReadFailures} {before : Time} {err : Err} :
      Allows l (.start abs cfg r now fails before) (some (.error (some err))) l
  /-- Where it does not, one of the maps is back. -/
  | start {l : Ledger} {abs : GoString → Except Err GoString} {cfg : Config} {r : RestoreOrders}
      {now : GoString → Time} {fails : ReadFailures} {before : Time} {ref : Reference} :
      ref ∈ l.maps →
      Allows l (.start abs cfg r now fails before) (some (.error none))
        { kept := [], current := ref, defaultTTL := cfg.defaultTTL }

/-- The ledger as a specification. -/
def specification : Specification Ledger Happening (Option Answer) where
  allows := Allows R

end

end Ledger

/-! ## The process -/

variable {R : Type} [LinearOrder R] [Zero R] [Strconv R]

namespace World

/-- What is told of an event: everything but what a sweep removes. -/
def reply (w : World R) : Happening → Option Answer
  | .call c _ =>
    match w.phase with
    | .down _ => none
    | .up e =>
      match (e.call c).1 with
      | .removed _ => none
      | answer => some answer
  | .stop => none
  | .start abs cfg r now fails _ =>
    match w.phase with
    | .up _ => none
    | .down store =>
      match Engine.newWithStorage (R := R) abs (some store) cfg r now fails with
      | .error err => some (.error (some err))
      | .ok _ => some (.error none)

/-- Nothing is asked of a closed engine, and `Restore` is for a start. -/
def Orderly (w : World R) : Happening → Prop
  | .call (.restore _ _ _) _ => False
  | .call _ _ => ∀ e, w.phase = .up e → e.closed = false
  | _ => True

/-- The world, with what is told of each event. -/
def lives : System (World R) Happening (Option Answer) where
  admits w event := w.admits event ∧ w.Orderly event
  step w event := (w.reply event, (w.step event).2)

end World

/-! ## What a call records -/

namespace Engine

/-- **A call that does not use the storage** changes nothing, makes one change, or
removes what has expired. -/
theorem call_single {lo hi : Time} (e : Engine R) {c : Call} (hc : ¬ c.UsesStorage)
    (hw : c.Within lo hi) :
    (e.call c).2 = e ∨ Change lo hi e (e.call c).2
      ∨ ∃ now, lo ≤ now ∧ now ≤ hi ∧ Prunes now e (e.call c).2 := by
  have hset : ∀ (key value : GoString) (number : Bool) (ttl : ℤ) (now : Time),
      lo ≤ now → now ≤ hi → (e.set key value number ttl now).2 = e
        ∨ Change lo hi e (e.set key value number ttl now).2 := by
    intro key value number ttl now hlo hhi
    rcases set_cases e key value number ttl now with
      ⟨err, hset⟩ | ⟨index, hcl, _, hnum, hrange, hidx, hset⟩
    · exact Or.inl (by rw [hset])
    · rw [hset]
      exact Or.inr (Change.put
        { key := key, value := value, isNumber := number, expiresAt := deadline _ now }
        index _ now hcl hlo hhi rfl hrange hnum hidx)
  have hdelete : ∀ key, (e.delete key).2 = e ∨ Change lo hi e (e.delete key).2 := by
    intro key
    rcases delete_cases e key with ⟨_, hdel⟩ | ⟨hcl, hdel⟩
    · exact Or.inl (by rw [hdel])
    · rw [hdel]
      exact Or.inr (Change.remove key hcl)
  obtain ⟨_, hreads⟩ := hw
  cases c with
  | set key value number ttl now =>
    exact (hset key value number ttl now (hreads now rfl).1 (hreads now rfl).2).imp_right Or.inl
  | get key now =>
    exact Or.inr (Or.inr ⟨now, (hreads now rfl).1, (hreads now rfl).2, getEntry_prunes e key now⟩)
  | delete key => exact (hdelete key).imp_right Or.inl
  | getWhere r field operator operand number now =>
    exact Or.inr (Or.inr ⟨now, (hreads now rfl).1, (hreads now rfl).2,
      getWhere_prunes r e field operator operand number now⟩)
  | sweepExpired r now =>
    exact Or.inr (Or.inr ⟨now, (hreads now rfl).1, (hreads now rfl).2, sweepExpired_prunes r e now⟩)
  | execute r cmd now =>
    have hlo := (hreads now rfl).1
    have hhi := (hreads now rfl).2
    show (e.execute r cmd now).2 = e ∨ Change lo hi e (e.execute r cmd now).2 ∨ _
    obtain ⟨_, _, h⟩ | ⟨_, _, h⟩ | ⟨_, _, h⟩ | ⟨_, _, h⟩ | ⟨_, _, h⟩ | ⟨_, _, h⟩ :=
      execute_cases r e cmd now
    · exact h ▸ (hset _ _ _ _ now hlo hhi).imp_right Or.inl
    · exact Or.inr (Or.inr ⟨now, hlo, hhi, h ▸ getEntry_prunes e _ now⟩)
    · exact h ▸ (hdelete _).imp_right Or.inl
    · exact Or.inl h
    · exact Or.inr (Or.inr ⟨now, hlo, hhi, h ▸ getWhere_prunes r e _ _ _ _ now⟩)
    · exact Or.inl h
  | flush reply => exact absurd trivial hc
  | snapshot r now replies => exact absurd trivial hc
  | restore r now fails => exact absurd trivial hc
  | close reply => exact absurd trivial hc

/-- **What removals record is not seen**, however little of it is kept. -/
theorem Prunes.recorded {now : Time} {e e' : Engine R} (h : Prunes now e e')
    (hstore : e.store ≠ none) :
    ∃ ops : List Op, e'.buffer = e.buffer ++ ops ∧ e'.state = ops.foldl Op.effect e.state
      ∧ ∀ m, SameFrom now ((ops.take m).foldl Op.effect e.state) e.state := by
  induction h with
  | refl =>
    refine ⟨[], (List.append_nil _).symm, rfl, fun m => ?_⟩
    rw [List.take_nil]
    exact Expiry.AgreeFrom.refl
  | @tail e₁ e₂ hfirst hlast ih =>
    obtain ⟨ops, hbuf, hstate, hsame⟩ := ih
    have hall : Prunes now e e₂ := hfirst.tail hlast
    obtain ⟨_, key, entry, hk, hx, rfl⟩ := hlast
    have hframe : Changes now now e e₁ := Prunes.changes hfirst
    have hstore₁ : e₁.store ≠ none := by
      rw [hframe.frame.1]
      exact hstore
    let erased : Engine R :=
      { e₁ with index := e₁.index.delete key, state := e₁.state.erase key }
    have hbuf' : (e₁.remove key).buffer
        = e₁.buffer ++ [erased.recordedOp kindDelete (tombstone key)] :=
      record_buffer erased kindDelete (tombstone key) hstore₁
    have heffect : (erased.recordedOp kindDelete (tombstone key)).effect e₁.state
        = e₁.state.erase key := by
      have hkind : kindDelete ≠ kindSet := by decide
      rw [Op.effect, recordedOp, if_neg hkind]
      rfl
    have hstate' : (e₁.remove key).state
        = (ops ++ [erased.recordedOp kindDelete (tombstone key)]).foldl Op.effect e.state := by
      rw [List.foldl_append, ← hstate, remove_state]
      exact heffect.symm
    refine ⟨ops ++ [erased.recordedOp kindDelete (tombstone key)],
      by rw [hbuf', hbuf, List.append_assoc], hstate', fun m => ?_⟩
    by_cases hm : m ≤ ops.length
    · rw [List.take_append_of_le_length hm]
      exact hsame m
    · rw [List.take_of_length_le (by rw [List.length_append, List.length_singleton]; omega),
        ← hstate']
      exact hall.sameFrom

end Engine

/-! ## The relation -/

/-- **The ledger covers what the storage may keep**: each prefix of the operations
recorded, past those acknowledged, makes what one of its maps has. -/
def Ledger.Covers (l : Ledger) (t : Time) (base : State) (recorded : List Op) (durable : ℕ) :
    Prop :=
  ∀ n, durable ≤ n → n ≤ recorded.length →
    ∃ ref ∈ l.maps, Models t ((recorded.take n).foldl Op.effect base) ref

theorem Ledger.Covers.mono {l : Ledger} {t t' : Time} {base : State} {recorded : List Op}
    {durable : ℕ} (h : l.Covers t base recorded durable) (ht : t ≤ t') :
    l.Covers t' base recorded durable := by
  intro n hd hn
  obtain ⟨ref, hmem, hmodels⟩ := h n hd hn
  exact ⟨ref, hmem, hmodels.mono ht⟩

/-- **The world and the ledger.** -/
structure World.Kept (w : World R) (l : Ledger) : Prop where
  /-- The invariant of the world. -/
  safe : w.Safe
  /-- The ledger covers what the storage may keep. -/
  covers : l.Covers w.clock w.base w.recorded w.durable
  /-- An engine that is open follows the current map. -/
  follows : ∀ e, w.phase = .up e → e.closed = false →
    Engine.Follows l.defaultTTL w.clock e l.current

section Calls

variable {t t' : Time} {base : State} {start f n : ℕ} {recorded : List Op} {e : Engine R}
  {ref ref' : Reference} {defaultTTL : ℤ}

/-- **Whatever the storage keeps of a call is not in the middle of it**: the map before
the call has it, or the map after it. -/
theorem Tracks.models_prefix (h : Tracks R t base start recorded f n e) (ht : 0 ≤ t) {c : Call}
    (hc : ¬ c.UsesStorage) (hw : c.Within t t') (hbefore : Engine.Follows defaultTTL t e ref)
    (hafter : Engine.Follows defaultTTL t' (e.call c).2 ref') (m : ℕ) :
    ∃ r, (r = ref ∨ r = ref') ∧ Models t' (((World.recordedBy e (e.call c).2).take m).foldl
      Op.effect (recorded.foldl Op.effect base)) r := by
  have hmodels : Models t' (recorded.foldl Op.effect base) ref :=
    (hbefore.models.of_sameFrom h.same.symm).mono hw.1
  obtain ⟨store, hstore, _⟩ := h.keeps
  have hne : e.store ≠ none := by rw [hstore]; exact nofun
  obtain hsame | hchange | ⟨now, hlo, hhi, hprunes⟩ := e.call_single hc hw
  · have hnone : World.recordedBy e (e.call c).2 = [] := by
      rw [World.recordedBy, hsame, List.drop_length]
    rw [hnone, List.take_nil]
    exact ⟨ref, Or.inl rfl, hmodels⟩
  · obtain ⟨f', n', _, htracks, _⟩ := h.call ht hw
    obtain ⟨op, hbuf, _⟩ := hchange.recorded hne
    have hone : World.recordedBy e (e.call c).2 = [op] := by
      rw [World.recordedBy, hbuf, List.drop_left]
    cases m with
    | zero => exact ⟨ref, Or.inl rfl, hmodels⟩
    | succ m =>
      have hsame := htracks.same
      rw [hone, List.foldl_append] at hsame
      rw [hone, List.take_succ_cons, List.take_nil]
      exact ⟨ref', Or.inr rfl, hafter.models.of_sameFrom hsame.symm⟩
  · obtain ⟨ops, hbuf, _, hunseen⟩ := hprunes.recorded hne
    have hops : World.recordedBy e (e.call c).2 = ops := by
      rw [World.recordedBy, hbuf, List.drop_left]
    rw [hops]
    have hsame : SameFrom t' ((ops.take m).foldl Op.effect (recorded.foldl Op.effect base))
        (recorded.foldl Op.effect base) := by
      have hfold := sameFrom_foldl_effect (h.same.symm.mono hw.1) (ops.take m)
      exact hfold.trans (((hunseen m).mono hhi).trans (h.same.mono hw.1))
    exact ⟨ref, Or.inl rfl, hmodels.of_sameFrom hsame⟩

/-- The ledger after a call that does not use the storage covers what may be kept
then. -/
theorem Tracks.covers_call (h : Tracks R t base start recorded f n e) (ht : 0 ≤ t) {c : Call}
    (hc : ¬ c.UsesStorage) (hw : c.Within t t') {l l' : Ledger} {durable : ℕ}
    (hcovers : l.Covers t base recorded durable) (hmaps : l'.maps = l.maps ++ [ref'])
    (hbefore : Engine.Follows defaultTTL t e l.current)
    (hafter : Engine.Follows defaultTTL t' (e.call c).2 ref') :
    l'.Covers t' base (recorded ++ World.recordedBy e (e.call c).2) durable := by
  intro k hd hk
  rw [hmaps]
  by_cases hkept : k ≤ recorded.length
  · obtain ⟨r, hmem, hmodels⟩ := hcovers.mono hw.1 k hd hkept
    rw [List.take_append_of_le_length hkept]
    exact ⟨r, List.mem_append_left _ hmem, hmodels⟩
  · obtain ⟨r, hr, hmodels⟩ := h.models_prefix ht hc hw hbefore hafter (k - recorded.length)
    refine ⟨r, ?_, ?_⟩
    · obtain rfl | rfl := hr
      · exact List.mem_append_left _ (List.mem_append_right _ (List.mem_singleton_self _))
      · exact List.mem_append_right _ (List.mem_singleton_self _)
    · rw [List.take_append, List.foldl_append,
        List.take_of_length_le (by omega : recorded.length ≤ k)]
      exact hmodels

/-- A storage call records nothing. -/
theorem Tracks.recordedBy_nil (h : Tracks R t base start recorded f n e) {c : Call}
    (hc : c.UsesStorage) (hw : c.Within t t') : World.recordedBy e (e.call c).2 = [] := by
  cases c with
  | flush reply =>
    obtain ⟨_, _, _, _, _, hrec⟩ := h.flush reply
    exact hrec
  | snapshot r now replies =>
    obtain ⟨_, _, _, _, _, hrec⟩ := h.snapshot r hw.1 (fun key => (hw.2 _ ⟨key, rfl⟩).2) replies
    exact hrec
  | restore r now fails =>
    exact (h.restore r hw.1 (fun key => (hw.2 _ ⟨key, rfl⟩).2) fails).2
  | close reply =>
    obtain ⟨_, _, _, _, _, hrec⟩ := h.close reply
    exact hrec
  | _ => exact hc.elim

end Calls

namespace World

variable {w : World R} {l : Ledger} {c : Call} {before : Time} {e : Engine R}

omit [LinearOrder R] [Zero R] [Strconv R] in
theorem down_ne_up {store : Storage} : (Phase.down store : Phase R) ≠ .up e :=
  fun h => by cases h

omit [LinearOrder R] [Zero R] [Strconv R] in
/-- A call in an orderly world is made of an open engine, and is no `Restore`. -/
theorem Orderly.call (h : w.Orderly (.call c before)) :
    (∀ e, w.phase = .up e → e.closed = false) ∧ ∀ r now fails, c ≠ .restore r now fails := by
  cases c with
  | restore r now fails => exact h.elim
  | _ => exact ⟨h, fun _ _ _ hc => by cases hc⟩

/-- A storage call ends somehow, and leaves what is visible as it is. -/
theorem ended_of_usesStorage {defaultTTL : ℤ} {t : Time} {ref : Reference}
    (h : Engine.Follows defaultTTL t e ref) (hc : c.UsesStorage)
    (hrestore : ∀ r now fails, c ≠ .restore r now fails) :
    (∃ how, (e.call c).1 = .ended how)
      ∧ ((e.call c).2.closed = false → Engine.Follows defaultTTL t (e.call c).2 ref) := by
  cases c with
  | flush reply => exact ⟨⟨_, rfl⟩, fun _ => h.onlyStorage (Engine.flush_only e reply)⟩
  | snapshot r now replies =>
    exact ⟨⟨_, rfl⟩, fun _ => h.onlyStorage (Engine.snapshot_only r e now replies)⟩
  | restore r now fails => exact absurd rfl (hrestore r now fails)
  | close reply =>
    refine ⟨⟨_, rfl⟩, fun hcl => ?_⟩
    obtain ⟨e', honly, heq | heq⟩ := Engine.close_only e reply
    · exact (show (e.call (.close reply)).2 = e' from heq) ▸ h.onlyStorage honly
    · have hclosed : (e.call (.close reply)).2.closed = true := by
        rw [show (e.call (.close reply)).2 = _ from heq]
      rw [hcl] at hclosed
      exact Bool.noConfusion hclosed
  | _ => exact hc.elim

/-- A call that does not use the storage is told as a turn of a dialogue. -/
theorem reply_call (hup : w.phase = .up e) (hc : ¬ c.UsesStorage) :
    w.reply (.call c before)
      = if (Asked.call c).observed then some (e.call c).1 else none := by
  unfold reply
  rw [hup]
  cases c with
  | flush reply => exact absurd trivial hc
  | snapshot r now replies => exact absurd trivial hc
  | restore r now fails => exact absurd trivial hc
  | close reply => exact absurd trivial hc
  | _ => rfl

/-- What the world is after a call. -/
theorem step_call (hup : w.phase = .up e) :
    (w.step (.call c before)).2 = { w with
      phase := if (e.call c).1 = .ended .stopped
        then .down ((e.call c).2.store.getD Storage.empty) else .up (e.call c).2
      clock := before
      recorded := w.recorded ++ recordedBy e (e.call c).2
      durable := if (e.call c).1 = .ended .nil
        then (w.recorded ++ recordedBy e (e.call c).2).length else w.durable } := by
  unfold step
  rw [hup]

variable [TextLib]

/-- **A call**. -/
theorem kept_call (hadm : lives.admits w (.call c before)) (h : w.Kept l) :
    ∃ l', Ledger.Allows R l (.call c before) (w.reply (.call c before)) l'
      ∧ (w.step (.call c before)).2.Kept l' := by
  have hsafe := safe_step hadm.1 h.safe
  obtain ⟨⟨⟨e, hup⟩, hwithin⟩, horderly⟩ := hadm
  obtain ⟨hopen, hrestore⟩ := horderly.call
  have hfollows := h.follows e hup (hopen e hup)
  obtain ⟨ht, hphase⟩ := h.safe
  rw [hup] at hphase
  obtain ⟨start, f, n, _, htracks⟩ := hphase
  have hstep : (w.step (.call c before)).2 = _ := step_call hup
  by_cases hc : c.UsesStorage
  · obtain ⟨⟨how, hended⟩, hafter⟩ := ended_of_usesStorage (hfollows.mono hwithin.1) hc hrestore
    have hreply : w.reply (.call c before) = some (.ended how) := by
      unfold reply
      rw [hup]
      dsimp only
      rw [hended]
    rw [htracks.recordedBy_nil hc hwithin, List.append_nil] at hstep
    have hfollows' : ∀ e', (w.step (.call c before)).2.phase = .up e' → e'.closed = false →
        Engine.Follows l.defaultTTL before e' l.current := by
      intro e' hup' hcl'
      rw [hstep] at hup'
      dsimp only at hup'
      split_ifs at hup'
      rw [← Phase.up.inj hup'] at hcl' ⊢
      exact hafter hcl'
    by_cases hnil : how = .nil
    · subst hnil
      refine ⟨{ l with kept := [] }, hreply ▸ Ledger.Allows.acknowledged hc, hsafe, ?_, ?_⟩
      · rw [hstep, hended, if_pos rfl]
        intro k hd hk
        have hlen : k = w.recorded.length := le_antisymm hk hd
        refine ⟨l.current, List.mem_singleton_self _, ?_⟩
        rw [hlen, List.take_length]
        exact (hfollows.models.of_sameFrom htracks.same.symm).mono hwithin.1
      · rw [hstep] at hfollows' ⊢
        exact hfollows'
    · refine ⟨l, hreply ▸ Ledger.Allows.failed hc hnil, hsafe, ?_, ?_⟩
      · have hne : (e.call c).1 ≠ .ended .nil := fun hans =>
          hnil (Answer.ended.inj (hended.symm.trans hans))
        rw [hstep, if_neg hne]
        exact h.covers.mono hwithin.1
      · rw [hstep] at hfollows' ⊢
        exact hfollows'
  · -- the call is a turn of a dialogue
    have hne : ∀ how, (e.call c).1 ≠ .ended how := fun how hans =>
      hc (usesStorage_of_ended hans)
    have hturn : Asked.Open (.call c) := by
      cases c with
      | restore r now fails => exact hc trivial
      | close reply => exact hc trivial
      | _ => trivial
    have hadm : Engine.dialogue.admits (e, w.clock) (.call c, before) := ⟨hturn, hwithin⟩
    obtain ⟨hans, hafter⟩ := hfollows.turn hadm
    have hreply : w.reply (.call c before) = _ := reply_call hup hc
    rw [show e.turn (.call c) = e.call c from rfl] at hans hafter
    rw [hans] at hreply
    rw [if_neg (hne _), if_neg (hne _)] at hstep
    refine ⟨_, hreply ▸ Ledger.Allows.call hc, hsafe, ?_, ?_⟩
    · rw [hstep]
      exact htracks.covers_call ht hc hwithin h.covers rfl hfollows hafter
    · rw [hstep]
      intro e' hup' _
      rw [← Phase.up.inj hup']
      exact hafter

/-- **A start**: whatever the storage kept is one of the maps. -/
theorem kept_start {abs : GoString → Except Err GoString} {cfg : Config} {r : RestoreOrders}
    {now : GoString → Time} {fails : ReadFailures}
    (hadm : lives.admits w (.start abs cfg r now fails before)) (h : w.Kept l) :
    ∃ l', Ledger.Allows R l (.start abs cfg r now fails before)
        (w.reply (.start abs cfg r now fails before)) l'
      ∧ (w.step (.start abs cfg r now fails before)).2.Kept l' := by
  have hsafe := safe_step hadm.1 h.safe
  obtain ⟨⟨⟨store, hdown⟩, hbefore, hnow⟩, _⟩ := hadm
  obtain ⟨ht, hphase⟩ := h.safe
  rw [hdown] at hphase
  obtain ⟨start, n, hdur, hkeeps⟩ := hphase
  unfold step reply at *
  rw [hdown] at hsafe ⊢
  dsimp only at hsafe ⊢
  cases hnew : Engine.newWithStorage (R := R) abs (some store) cfg r now fails with
  | error err =>
    rw [hnew] at hsafe
    exact ⟨l, Ledger.Allows.refused, hsafe, h.covers.mono hbefore,
      fun e hup => absurd hup down_ne_up⟩
  | ok e =>
    rw [hnew] at hsafe
    obtain ⟨ref, hmem, hmodels⟩ := h.covers n hdur hkeeps.le
    have hmodels' : Models before e.state ref := by
      obtain ⟨_, state, sequence, index, hreplays, _, rfl⟩ := Engine.newWithStorage_restored hnew
      obtain ⟨state₀, hreplays₀, hsame⟩ := hkeeps.contents
      obtain ⟨rfl, rfl⟩ := hreplays.unique hreplays₀
      have hkept : SameFrom before (dropExpired r.expiry now state) state :=
        sameFrom_of_visible (lookup_dropExpired r.expiry now state) (fun key => (hnow key).2)
      exact (hmodels.mono hbefore).of_sameFrom (hkept.trans (hsame.mono hbefore))
    refine ⟨_, Ledger.Allows.start hmem, hsafe, ?_, ?_⟩
    · intro k _ _
      refine ⟨ref, List.mem_singleton_self _, ?_⟩
      rw [List.take_nil]
      exact hmodels'
    · intro e' hup' _
      obtain rfl := Phase.up.inj hup'
      have hsound : e.Sound := (Engine.Opened.withStorage hnew).sound
      obtain ⟨_, state, sequence, index, _, _, rfl⟩ := Engine.newWithStorage_restored hnew
      exact ⟨rfl, rfl, hsound, hmodels'⟩

/-- **Every event is allowed.** -/
theorem kept_step {event : Happening} (hadm : lives.admits w event) (h : w.Kept l) :
    ∃ l', Ledger.Allows R l event (w.reply event) l' ∧ (w.step event).2.Kept l' := by
  cases event with
  | call c before => exact kept_call hadm h
  | start abs cfg r now fails before => exact kept_start hadm h
  | stop =>
    have hsafe := safe_step hadm.1 h.safe
    refine ⟨l, Ledger.Allows.stop, ?_⟩
    unfold step at hsafe ⊢
    cases hphase : w.phase with
    | down store =>
      rw [hphase] at hsafe
      exact h
    | up e =>
      rw [hphase] at hsafe
      exact ⟨hsafe, h.covers, fun e hup => absurd hup down_ne_up⟩

omit [TextLib] in
theorem kept_init {t : Time} (ht : 0 ≤ t) : (init t : World R).Kept Ledger.new where
  safe := safe_init ht
  covers n _ _ := ⟨∅, List.mem_singleton_self _, by
    rw [show (init t : World R).recorded.take n = [] from List.take_nil]
    exact Models.empty t⟩
  follows _ hup := absurd hup down_ne_up

/-- **What clients see of crashes.** Over any run from an empty storage – calls,
stops in and between calls, storage calls that fail in any pattern, starts under any
settings – with a clock that starts after 1970 and never goes back: there is one
line of choices by which the ledger gives every answer of the run, in every life of
the process. So each life starts from a map that some call of the life before left,
at or after its last `Flush`, `Snapshot` or `Close` that returned nil. -/
theorem survival {t : Time} (ht : 0 ≤ t) {events : List Happening}
    (hrun : lives.Admits (init t : World R) events) :
    ∃ l, (Ledger.specification R).Runs Ledger.new
      (events.zip (lives.answers (init t : World R) events)) l := by
  obtain ⟨l, hruns, _⟩ := Specification.refines (T := Ledger.specification R) Kept hrun
    (kept_init ht) (fun w l event hadm h => kept_step hadm h)
  exact ⟨l, hruns⟩

/-- A flush fails half-way and the process stops: the first key is back, in the map
that the first call left. -/
def halfFlushed : List Happening :=
  [.start Except.ok Config.default RestoreOrders.sorted (fun _ => 0) {} 0,
    .call (.set (str "a") (str "1") false 0 1) 1, .call (.set (str "b") (str "2") false 0 1) 1,
    .call (.flush (.fail 1)) 2, .stop,
    .start Except.ok Config.default RestoreOrders.sorted (fun _ => 3) {} 3,
    .call (.get (str "b") 4) 4]

omit [TextLib] in
theorem survival_halfFlushed :
    let _ := TextLib.ascii
    ∃ l, (Ledger.specification ℕ).Runs Ledger.new
      (halfFlushed.zip (lives.answers (init 0 : World ℕ) halfFlushed)) l := by
  intro _
  have hat : ∀ {c : Call} {lo now hi : Time}, (∀ t, c.Reads t → t = now) → lo ≤ now → now ≤ hi →
      c.Within lo hi := Call.within_of_reads
  have hadm : lives.Admits (init 0 : World ℕ) halfFlushed := by
    refine ⟨⟨⟨⟨_, rfl⟩, le_rfl, fun _ => ⟨le_rfl, le_rfl⟩⟩, trivial⟩,
      ⟨⟨⟨_, rfl⟩, hat (fun _ h => h) ?_ ?_⟩, ?_⟩, ⟨⟨⟨_, rfl⟩, hat (fun _ h => h) ?_ ?_⟩, ?_⟩,
      ⟨⟨⟨_, rfl⟩, ?_, fun _ h => h.elim⟩, ?_⟩, ⟨trivial, trivial⟩,
      ⟨⟨⟨_, rfl⟩, ?_, fun _ => ⟨show (2 : ℤ) ≤ 3 by decide, show (3 : ℤ) ≤ 3 by decide⟩⟩,
        trivial⟩,
      ⟨⟨⟨_, rfl⟩, hat (fun _ h => h) ?_ ?_⟩, ?_⟩, trivial⟩
    all_goals first | decide | exact fun _ h => Phase.up.inj h ▸ rfl
  exact survival le_rfl hadm

end World

end WasmRedis
