import WasmRedis.LazyExpiry
import WasmRedis.Queries

/-!
# The command language, interpreted by a map

The reference map of the sessions is given the rest of the language: a query is
a scan of what is visible, key by key, and a command does to the map what its
kind says. There is no index in it, no storage, no sweep and no removal of what
has expired.

`interpreted` compares the engine with it over whole dialogues: every line of
text, every command and every call of the interface gets the result that the
map gives, errors included, whatever is swept, flushed or written between them,
and whatever the storage replies. The engine finds its answers in four
structures; that the map finds the same ones by looking at every key rests on
the invariant of the index and on `Models`, where an expired entry is the same
as none.
-/

namespace WasmRedis

open GoString

/-- The entry an item is returned as. -/
def Item.toEntry (key : GoString) (item : Item) : Entry :=
  { key := key, value := item.value, isNumber := item.isNumber,
    expiresAt := item.deadline.getD Time.zero }

/-- An entry under its own key is the entry of its item. -/
theorem Entry.toEntry_toItem (entry : Entry) : entry.toItem.toEntry entry.key = entry := by
  obtain ⟨key, value, number, expiresAt⟩ := entry
  unfold Entry.toItem Item.toEntry
  dsimp only
  by_cases hz : expiresAt = Time.zero
  · rw [show Time.isZero expiresAt = true from decide_eq_true hz, if_pos rfl, hz]
    rfl
  · rw [show Time.isZero expiresAt = false from decide_eq_false hz, if_neg Bool.false_ne_true]
    rfl

/-! ## The reference -/

/-- What an open engine is asked: a line of text, or a call. -/
inductive Asked where
  /-- `ExecuteString`. -/
  | line (r : RangeOrder GoString) (input : GoString) (now : Time)
  /-- Any other operation. -/
  | call (c : Call)

namespace Reference

section Language

variable (R : Type) [LinearOrder R] [Zero R] [Strconv R] (defaultTTL : ℤ)

omit [LinearOrder R] [Zero R] in
/-- Why a query is refused, if it is. -/
def refusal (field operator operand : GoString) (number : Bool) : Option Err :=
  if field ≠ str "key" ∧ field ≠ str "value" then
    some (.new (str "champ attendu : key ou value"))
  else if operator ∉ Index.operators then some (.new (str "opérateur inconnu"))
  else if field = str "value" ∧ number = true ∧ Strconv.isFiniteNumber R operand = false then
    some (.new (str "nombre fini requis"))
  else none

/-- A query: what is visible and satisfies it, in the order of the keys. -/
def getWhere (ref : Reference) (field operator operand : GoString) (number : Bool) (now : Time) :
    Except Err (List Entry) :=
  match refusal R field operator operand number with
  | some err => .error err
  | none =>
    .ok (((sortStrings (RangeOrder.sorted.list ref.keys)).filterMap
      (fun key => (ref.visible now key).map (Item.toEntry key))).filter
        (satisfies R field operator operand number))

/-- A command. -/
def execute (ref : Reference) (cmd : Command) (now : Time) : Result × Reference :=
  if cmd.kind = kindSet then
    match ref.set R defaultTTL cmd.key cmd.value cmd.isNumber cmd.ttl now with
    | (some err, ref) => ({ err := some err }, ref)
    | (none, ref) => ({ value := str "OK" }, ref)
  else if cmd.kind = kindGet then
    match ref.visible now cmd.key with
    | none => ({ err := some .notFound }, ref)
    | some item => ({ value := item.value, isNumber := item.isNumber }, ref)
  else if cmd.kind = kindDelete then ({ value := str "OK" }, ref.erase cmd.key)
  else if cmd.kind = kindPing then ({ value := str "PONG" }, ref)
  else if cmd.kind = kindGetWhere then
    match ref.getWhere R cmd.field cmd.operator cmd.operand cmd.operandIsNumber now with
    | .error err => ({ err := some err }, ref)
    | .ok entries => ({ entries := entries }, ref)
  else ({ err := some .unknown }, ref)

/-- A line of text. -/
def executeString [TextLib] (ref : Reference) (input : GoString) (now : Time) :
    Result × Reference :=
  match parse R input with
  | .error err => ({ err := some err }, ref)
  | .ok cmd => ref.execute R defaultTTL cmd now

/-- The answer to what an open engine is asked, where it is one for a client. -/
def turn [TextLib] (ref : Reference) : Asked → Option Answer × Reference
  | .line _ input now =>
    Prod.map (some ∘ .result) id (ref.executeString R defaultTTL input now)
  | .call (.execute _ cmd now) =>
    Prod.map (some ∘ .result) id (ref.execute R defaultTTL cmd now)
  | .call (.getWhere _ field operator operand number now) =>
    (some (.entries (ref.getWhere R field operator operand number now)), ref)
  | .call c => ref.call R defaultTTL c

/-- The reference as a system that is asked the same. -/
def language [TextLib] : System Reference (Asked × Time) (Option Answer) where
  admits _ _ := True
  step ref event := ref.turn R defaultTTL event.1

end Language

end Reference

/-! ## Dialogues -/

namespace Asked

/-- What may be asked of an engine that stays open: anything but a `Restore` or
a `Close`. -/
def Open : Asked → Prop
  | call (.restore _ _ _) => False
  | call (.close _) => False
  | _ => True

/-- The turns whose results a client compares: all but the sweeps, the flushes
and the snapshots. -/
def observed : Asked → Bool
  | line _ _ _ => true
  | call (.execute _ _ _) => true
  | call (.getWhere _ _ _ _ _ _) => true
  | call c => c.observed

/-- The clock reads nothing before `lo` nor after `hi` during the turn. -/
def Within (lo hi : Time) : Asked → Prop
  | line _ _ now => lo ≤ now ∧ now ≤ hi
  | call c => c.Within lo hi

end Asked

variable {R : Type} [LinearOrder R] [Zero R] [Strconv R]

namespace Engine

/-- The engine takes a turn. -/
def turn [TextLib] (e : Engine R) : Asked → Answer × Engine R
  | .line r input now => Prod.map .result id (e.executeString r input now)
  | .call c => e.call c

/-- **A dialogue**: an engine that stays open and a clock that never goes back.
An event is a turn, with an instant that the clock has reached when it ends. -/
def dialogue [TextLib] : System (Engine R × Time) (Asked × Time) Answer where
  admits s event := event.1.Open ∧ event.1.Within s.2 event.2
  step s event := ((s.1.turn event.1).1, ((s.1.turn event.1).2, event.2))

/-- What clients are told in a dialogue. -/
def told [TextLib] (e : Engine R) (t : Time) (events : List (Asked × Time)) :
    List (Option Answer) :=
  List.zipWith (fun event answer => if event.1.observed then some answer else none) events
    (dialogue.answers (e, t) events)

/-! ## Following the reference -/

/-- **The engine follows the reference** from the instant `t` on. -/
structure Follows (defaultTTL : ℤ) (t : Time) (e : Engine R) (ref : Reference) : Prop where
  /-- The engine is open. -/
  closed : e.closed = false
  /-- It has the duration of the reference. -/
  ttl : e.cfg.defaultTTL = defaultTTL
  /-- Its index mirrors its entries. -/
  sound : e.Sound
  /-- The same is visible. -/
  models : Models t e.state ref

namespace Follows

variable {defaultTTL : ℤ} {t t' : Time} {e e' : Engine R} {ref : Reference}

theorem mono (h : Follows defaultTTL t e ref) (ht : t ≤ t') : Follows defaultTTL t' e ref :=
  ⟨h.closed, h.ttl, h.sound, h.models.mono ht⟩

/-- The removal of what has expired. -/
theorem prunes (h : Follows defaultTTL t e ref) {now : Time} (hnow : t ≤ now)
    (hp : Prunes now e e') : Follows defaultTTL now e' ref := by
  have hchanges : Changes now now e e' := hp.changes
  obtain ⟨_, hcfg, hcl⟩ := hchanges.frame
  exact ⟨hcl.trans h.closed, (congrArg _ hcfg).trans h.ttl, hchanges.sound h.sound,
    (h.models.mono hnow).of_sameFrom hp.sameFrom⟩

/-- What only moves data to the storage. -/
theorem onlyStorage (h : Follows defaultTTL t e ref) (ho : OnlyStorage e e') :
    Follows defaultTTL t e' ref := by
  have hsound := h.sound.onlyStorage ho
  obtain ⟨store, buffer, rfl⟩ := ho
  exact ⟨h.closed, h.ttl, hsound, h.models⟩

/-- A SET. -/
theorem set (h : Follows defaultTTL t e ref) (key value : GoString) (number : Bool) (ttl : ℤ)
    {now : Time} (hnow : t ≤ now) :
    (e.set key value number ttl now).1 = (ref.set R defaultTTL key value number ttl now).1
      ∧ Follows defaultTTL now (e.set key value number ttl now).2
          (ref.set R defaultTTL key value number ttl now).2 := by
  obtain ⟨hcl, rfl, hsound, hmodels⟩ := h
  obtain ⟨hans, hmodels'⟩ := set_models hcl (hmodels.mono hnow) key value number ttl now
  have hchanges : Changes now now e (e.set key value number ttl now).2 :=
    set_changes le_rfl le_rfl
  obtain ⟨_, hcfg, hcl'⟩ := hchanges.frame
  exact ⟨hans, hcl'.trans hcl, congrArg _ hcfg, hchanges.sound hsound, hmodels'⟩

/-- A DELETE. -/
theorem delete (h : Follows defaultTTL t e ref) (key : GoString) :
    (e.delete key).1 = none ∧ Follows defaultTTL t (e.delete key).2 (ref.erase key) := by
  have hchanges : Changes t t e (e.delete key).2 := delete_changes e key
  obtain ⟨_, hcfg, hcl⟩ := hchanges.frame
  have hsound := hchanges.sound h.sound
  obtain ⟨hc, _⟩ | ⟨_, hdel⟩ := delete_cases e key
  · rw [h.closed] at hc
    exact Bool.noConfusion hc
  · rw [hdel] at hcl hcfg hsound ⊢
    refine ⟨rfl, hcl.trans h.closed, (congrArg _ hcfg).trans h.ttl, hsound, ?_⟩
    rw [remove_state]
    exact h.models.erase key

/-- What is visible is what the reference has. -/
theorem visible_eq (h : Follows defaultTTL t e ref) (ht : t ≤ t') (key : GoString) :
    visible t' e.state key = (ref.visible t' key).map (Item.toEntry key) := by
  rw [← h.models t' ht key, Option.map_map]
  cases hv : visible t' e.state key with
  | none => rfl
  | some entry =>
    obtain ⟨hlook, _⟩ := Expiry.alive_eq_some_iff.mp hv
    obtain rfl := (h.sound.good key entry hlook).1
    exact congrArg some entry.toEntry_toItem.symm

end Follows

end Engine

/-! ## Queries -/

namespace Index

omit [LinearOrder R] [Zero R] in
/-- The reference refuses the queries that are refused. -/
theorem refusal_eq_none_iff {field operator operand : GoString} {number : Bool} :
    Reference.refusal R field operator operand number = none
      ↔ ¬ Refused R field operator operand number := by
  unfold Reference.refusal Refused
  by_cases hfield : field ≠ str "key" ∧ field ≠ str "value"
  · rw [if_pos hfield]
    exact iff_of_false (Option.some_ne_none _) (fun h => h (Or.inl hfield))
  rw [if_neg hfield]
  by_cases hop : operator ∉ operators
  · rw [if_pos hop]
    exact iff_of_false (Option.some_ne_none _) (fun h => h (Or.inr (Or.inl hop)))
  rw [if_neg hop]
  by_cases hnum : field = str "value" ∧ number = true ∧ Strconv.isFiniteNumber R operand = false
  · rw [if_pos hnum]
    exact iff_of_false (Option.some_ne_none _) (fun h => h (Or.inr (Or.inr hnum)))
  · rw [if_neg hnum]
    exact iff_of_true rfl (fun h => h.elim hfield (fun h => h.elim hop hnum))

/-- `Find` refuses a query for the reason the reference gives. -/
theorem find_of_refusal (r : RangeOrder GoString) (idx : Index R)
    {field operator operand : GoString} {number : Bool} {err : Err}
    (h : Reference.refusal R field operator operand number = some err) :
    idx.find r field operator operand number = .error err := by
  unfold Reference.refusal at h
  unfold find
  by_cases hfield : field ≠ str "key" ∧ field ≠ str "value"
  · rw [if_pos hfield] at h ⊢
    rw [Option.some.inj h]
  rw [if_neg hfield] at h ⊢
  by_cases hop : operator ∉ operators
  · rw [if_pos hop] at h ⊢
    rw [Option.some.inj h]
  rw [if_neg hop] at h ⊢
  by_cases hnum : field = str "value" ∧ number = true ∧ Strconv.isFiniteNumber R operand = false
  · rw [if_pos hnum] at h
    obtain ⟨rfl, rfl, hfin⟩ := hnum
    have hkv : str "value" ≠ str "key" := by decide
    dsimp only
    rw [if_neg hkv, scalar_eq, hfin, ← Option.some.inj h]
    rfl
  · rw [if_neg hnum] at h
    cases h

end Index

namespace Reference

/-- What a query returns of a reference: the entries that are visible and
satisfy it, each once and in the order of the keys. -/
theorem getWhere_ok (ref : Reference) {field operator operand : GoString} {number : Bool}
    (now : Time) (h : ¬ Refused R field operator operand number) :
    ∃ entries, ref.getWhere R field operator operand number now = .ok entries
      ∧ entries.Pairwise (fun a b => a.key < b.key)
      ∧ ∀ entry, entry ∈ entries ↔ satisfies R field operator operand number entry = true
          ∧ ∃ item, ref.visible now entry.key = some item ∧ item.toEntry entry.key = entry := by
  unfold getWhere
  rw [Index.refusal_eq_none_iff.mpr h]
  refine ⟨_, rfl, List.Pairwise.filter _ ?_, fun entry => ?_⟩
  · rw [List.pairwise_filterMap]
    refine (sortStrings_strict (RangeOrder.sorted.nodup ref.keys)).imp
      (fun {key key'} hlt a ha b hb => ?_)
    obtain ⟨_, _, rfl⟩ := Option.map_eq_some_iff.mp ha
    obtain ⟨_, _, rfl⟩ := Option.map_eq_some_iff.mp hb
    exact hlt
  · rw [List.mem_filter, List.mem_filterMap, and_comm]
    refine and_congr_right (fun _ => ⟨?_, ?_⟩)
    · rintro ⟨key, _, hkey⟩
      obtain ⟨item, hitem, rfl⟩ := Option.map_eq_some_iff.mp hkey
      exact ⟨item, hitem, rfl⟩
    · rintro ⟨item, hitem, hentry⟩
      refine ⟨entry.key, ?_, Option.map_eq_some_iff.mpr ⟨item, hitem, hentry⟩⟩
      have hlook := (Option.filter_eq_some_iff.mp hitem).1
      rw [mem_sortStrings, RangeOrder.sorted.mem_list, Finmap.mem_keys]
      exact Finmap.mem_of_lookup_eq_some hlook

end Reference

namespace Engine

/-- What a query returns of an engine, in terms of what is visible. -/
theorem Sound.getWhere_ok {e : Engine R} (hs : e.Sound) (r : RangeOrder GoString)
    {field operator operand : GoString} {number : Bool} (now : Time)
    (h : ¬ Refused R field operator operand number) :
    ∃ entries, (e.getWhere r field operator operand number now).1 = .ok entries
      ∧ entries.Pairwise (fun a b => a.key < b.key)
      ∧ ∀ entry, entry ∈ entries ↔ satisfies R field operator operand number entry = true
          ∧ visible now e.state entry.key = some entry := by
  obtain ⟨keys, hfind, hsorted, hmem⟩ := hs.mirrors.holds.find_spec r h
  -- the index selects a key exactly if its entry satisfies the query
  have hkey : ∀ key entry, e.state.lookup key = some entry →
      (key ∈ keys ↔ satisfies R field operator operand number entry = true) := by
    intro key entry hlook
    obtain rfl := (hs.good key entry hlook).1
    rw [hmem, hs.mirrors.entries, hlook, ← selects_normalised]
    simp only [Option.map_some, Option.some.injEq, exists_eq_left']
  have hheld : ∀ key ∈ keys, ∃ entry, e.state.lookup key = some entry := by
    intro key hk
    obtain ⟨v, hv, _⟩ := (hmem key).mp hk
    rw [hs.mirrors.entries] at hv
    obtain ⟨entry, hlook, _⟩ := Option.map_eq_some_iff.mp hv
    exact ⟨entry, hlook⟩
  have hnd : keys.Nodup := hsorted.imp (fun {a b} hab => ne_of_lt hab)
  refine ⟨keys.filterMap (visible now e.state), ?_,
    pairwise_filterMap_visible hs.good now hsorted, fun entry => ?_⟩
  · unfold getWhere
    rw [hfind]
    dsimp only
    rw [collect_fst now hnd [] e hheld, List.nil_append]
  · rw [List.mem_filterMap]
    constructor
    · rintro ⟨key, hk, hvis⟩
      have hlook := (Expiry.alive_eq_some_iff.mp hvis).1
      obtain rfl := (hs.good key entry hlook).1
      exact ⟨(hkey _ entry hlook).mp hk, hvis⟩
    · rintro ⟨hsat, hvis⟩
      exact ⟨entry.key, (hkey _ entry (Expiry.alive_eq_some_iff.mp hvis).1).mpr hsat, hvis⟩

namespace Follows

variable {defaultTTL : ℤ} {t t' : Time} {e e' : Engine R} {ref : Reference}

/-- **A query**: the engine finds through its index what the reference finds by
looking at every key. -/
theorem getWhere (h : Follows defaultTTL t e ref) (r : RangeOrder GoString)
    (field operator operand : GoString) (number : Bool) {now : Time} (hnow : t ≤ now) :
    (e.getWhere r field operator operand number now).1
        = ref.getWhere R field operator operand number now
      ∧ Follows defaultTTL now (e.getWhere r field operator operand number now).2 ref := by
  refine ⟨?_, h.prunes hnow (getWhere_prunes r e field operator operand number now)⟩
  cases hr : Reference.refusal R field operator operand number with
  | some err =>
    unfold Engine.getWhere Reference.getWhere
    rw [Index.find_of_refusal r e.index hr, hr]
  | none =>
    have hq := Index.refusal_eq_none_iff.mp hr
    obtain ⟨found, hfound, hsorted, hmem⟩ := h.sound.getWhere_ok r now hq
    obtain ⟨wanted, hwanted, hsorted', hmem'⟩ := ref.getWhere_ok now hq
    have hsame : ∀ entry, entry ∈ found ↔ entry ∈ wanted := by
      intro entry
      rw [hmem, hmem', h.visible_eq hnow, Option.map_eq_some_iff]
    have : Std.Irrefl (fun a b : Entry => a.key < b.key) := ⟨fun a => lt_irrefl a.key⟩
    have : Std.Antisymm (fun a b : Entry => a.key < b.key) :=
      ⟨fun a b hab hba => absurd hba (lt_asymm hab)⟩
    rw [hfound, hwanted, hsorted.eq_of_mem_iff hsorted' hsame]

/-- **A command**: the same result, and the same is visible afterwards. -/
theorem execute (h : Follows defaultTTL t e ref) (r : RangeOrder GoString) (cmd : Command)
    {now : Time} (hnow : t ≤ now) :
    (e.execute r cmd now).1 = (ref.execute R defaultTTL cmd now).1
      ∧ Follows defaultTTL now (e.execute r cmd now).2 (ref.execute R defaultTTL cmd now).2 := by
  unfold Engine.execute Reference.execute
  split_ifs with hset hget hdelete hping hwhere
  · obtain ⟨hans, hfollows⟩ := h.set cmd.key cmd.value cmd.isNumber cmd.ttl hnow
    generalize e.set cmd.key cmd.value cmd.isNumber cmd.ttl now = s at hans hfollows ⊢
    generalize ref.set R defaultTTL cmd.key cmd.value cmd.isNumber cmd.ttl now = s'
      at hans hfollows ⊢
    obtain ⟨answer, e'⟩ := s
    obtain ⟨answer', ref'⟩ := s'
    obtain rfl : answer = answer' := hans
    cases answer <;> exact ⟨rfl, hfollows⟩
  · have hfollows := h.prunes hnow (getEntry_prunes e cmd.key now)
    have hvis := h.visible_eq hnow cmd.key
    unfold getEntry at hfollows ⊢
    cases hk : e.state.lookup cmd.key with
    | none =>
      rw [hk] at hfollows
      rw [visible_of_none hk] at hvis
      rw [Option.map_eq_none_iff.mp hvis.symm]
      exact ⟨rfl, hfollows⟩
    | some entry =>
      rw [hk] at hfollows
      rw [visible_of_lookup hk] at hvis
      dsimp only at hfollows ⊢
      cases hx : expired entry now with
      | true =>
        rw [hx] at hfollows hvis
        rw [Option.map_eq_none_iff.mp hvis.symm]
        exact ⟨rfl, hfollows⟩
      | false =>
        rw [hx] at hfollows hvis
        obtain ⟨item, hitem, rfl⟩ := Option.map_eq_some_iff.mp hvis.symm
        rw [hitem]
        exact ⟨rfl, hfollows⟩
  · obtain ⟨hans, hfollows⟩ := (h.mono hnow).delete cmd.key
    generalize e.delete cmd.key = s at hans hfollows ⊢
    obtain ⟨answer, e'⟩ := s
    obtain rfl : answer = none := hans
    exact ⟨rfl, hfollows⟩
  · exact ⟨rfl, h.mono hnow⟩
  · obtain ⟨hans, hfollows⟩ := h.getWhere r cmd.field cmd.operator cmd.operand cmd.operandIsNumber
      hnow
    rw [← hans]
    generalize e.getWhere r cmd.field cmd.operator cmd.operand cmd.operandIsNumber now = s
      at hfollows ⊢
    obtain ⟨answer, e'⟩ := s
    cases answer <;> exact ⟨rfl, hfollows⟩
  · exact ⟨rfl, h.mono hnow⟩

/-- **A line**: it is read without looking at the engine, and executed as its
command. -/
theorem executeString [TextLib] (h : Follows defaultTTL t e ref) (r : RangeOrder GoString)
    (input : GoString) {now : Time} (hnow : t ≤ now) :
    (e.executeString r input now).1 = (ref.executeString R defaultTTL input now).1
      ∧ Follows defaultTTL now (e.executeString r input now).2
          (ref.executeString R defaultTTL input now).2 := by
  unfold Engine.executeString Reference.executeString
  cases parse R input with
  | error err => exact ⟨rfl, h.mono hnow⟩
  | ok cmd => exact h.execute r cmd hnow

/-- **A turn** of a dialogue. -/
theorem turn [TextLib] {event : Asked × Time} (hadm : dialogue.admits (e, t) event)
    (h : Follows defaultTTL t e ref) :
    (if event.1.observed then some (e.turn event.1).1 else none)
        = (ref.turn R defaultTTL event.1).1
      ∧ Follows defaultTTL event.2 (e.turn event.1).2 (ref.turn R defaultTTL event.1).2 := by
  obtain ⟨what, until_⟩ := event
  obtain ⟨hopen, hwithin⟩ := hadm
  cases what with
  | line r input now =>
    obtain ⟨hans, hfollows⟩ := h.executeString r input hwithin.1
    exact ⟨congrArg (some ∘ Answer.result) hans, hfollows.mono hwithin.2⟩
  | call c =>
    obtain ⟨hle, hreads⟩ := hwithin
    cases c with
    | set key value number ttl now =>
      obtain ⟨hans, hfollows⟩ := h.set key value number ttl (hreads now rfl).1
      exact ⟨congrArg (some ∘ Answer.error) hans, hfollows.mono (hreads now rfl).2⟩
    | get key now =>
      have hfollows := h.prunes (hreads now rfl).1 (getEntry_prunes e key now)
      exact ⟨congrArg (some ∘ Answer.value) (get_models h.models (hreads now rfl).1 key),
        hfollows.mono (hreads now rfl).2⟩
    | delete key =>
      obtain ⟨hans, hfollows⟩ := h.delete key
      exact ⟨congrArg (some ∘ Answer.error) hans, hfollows.mono hle⟩
    | getWhere r field operator operand number now =>
      obtain ⟨hans, hfollows⟩ := h.getWhere r field operator operand number (hreads now rfl).1
      exact ⟨congrArg (some ∘ Answer.entries) hans, hfollows.mono (hreads now rfl).2⟩
    | execute r cmd now =>
      obtain ⟨hans, hfollows⟩ := h.execute r cmd (hreads now rfl).1
      exact ⟨congrArg (some ∘ Answer.result) hans, hfollows.mono (hreads now rfl).2⟩
    | sweepExpired r now =>
      have hfollows := h.prunes (hreads now rfl).1 (sweepExpired_prunes r e now)
      exact ⟨rfl, hfollows.mono (hreads now rfl).2⟩
    | flush reply => exact ⟨rfl, (h.onlyStorage (flush_only e reply)).mono hle⟩
    | snapshot r now replies =>
      exact ⟨rfl, (h.onlyStorage (snapshot_only r e now replies)).mono hle⟩
    | restore r now fails => exact hopen.elim
    | close reply => exact hopen.elim

end Follows

/-- An engine that starts empty follows the empty map. -/
theorem StartsEmpty.follows {cfg : Config} {e : Engine R} (h : StartsEmpty cfg e) (t : Time) :
    Follows cfg.defaultTTL t e ∅ := by
  obtain ⟨hcl, hcfg, hmodels⟩ := h.models t
  refine ⟨hcl, congrArg _ hcfg, ?_, hmodels⟩
  cases h with
  | memory h => exact (Opened.memory h).sound
  | withStorage h => exact (Opened.withStorage h).sound

/-- An engine that follows a reference tells its clients what the reference does. -/
theorem Follows.told [TextLib] {defaultTTL : ℤ} {t : Time} {e : Engine R} {ref : Reference}
    {events : List (Asked × Time)} (h : Follows defaultTTL t e ref)
    (hadm : dialogue.Admits (e, t) events) :
    e.told t events = (Reference.language R defaultTTL).answers ref events := by
  refine (System.simulation (fun (event : Asked × Time) answer =>
      if event.1.observed then some answer else none)
    (fun (s : Engine R × Time) (ref : Reference) => Follows defaultTTL s.2 s.1 ref)
    hadm h (fun s ref event hevent hrel => ?_)).1
  exact hrel.turn hevent

/-- **The engine interprets the command language as a map does.** Under any
configuration, in memory or over an empty storage whose calls fail in any
pattern, every result of a dialogue is that of the reference: of the lines of
text, the commands, the queries and the other calls, in any order, with any
sweeps, flushes and snapshots between them. -/
theorem interpreted [TextLib] {cfg : Config} {e : Engine R} {t : Time}
    {events : List (Asked × Time)} (hstart : StartsEmpty cfg e)
    (hadm : dialogue.Admits (e, t) events) :
    e.told t events = (Reference.language R cfg.defaultTTL).answers ∅ events :=
  (hstart.follows t).told hadm

/-- A number is set for five seconds, found, swept when it has expired, and gone;
a line that is no command is answered too. -/
def numberForFiveSeconds : List (Asked × Time) :=
  [(.line RangeOrder.sorted (str "SET k 12 EX 5") 0, 0),
    (.line RangeOrder.sorted (str "GET WHERE value >= 9") 4999999999, 4999999999),
    (.call (.sweepExpired RangeOrder.sorted 5000000000), 5000000000),
    (.line RangeOrder.sorted (str "get k") 5000000000, 5000000000),
    (.line RangeOrder.sorted (str "PING k") 5000000000, 5000000000)]

theorem interpreted_numberForFiveSeconds :
    @told ℕ _ _ _ TextLib.ascii new 0 numberForFiveSeconds
      = [some (.result { value := str "OK" }),
        some (.result { entries := [{ key := str "k", value := str "12", isNumber := true,
                                      expiresAt := 5000000000 }] }),
        none,
        some (.result { err := some .notFound }),
        some (.result { err := some (.detail .missingArgs (str "PING")) })] := by
  let _ := TextLib.ascii
  have hstart : StartsEmpty Config.default (new : Engine ℕ) :=
    StartsEmpty.memory (show newMemory Except.ok Config.default = .ok new from rfl)
  have hadm : dialogue.Admits ((new : Engine ℕ), 0) numberForFiveSeconds := by
    refine ⟨⟨trivial, ?_⟩, ⟨trivial, ?_⟩,
      ⟨trivial, Call.within_of_reads (fun _ h => h) ?_ ?_⟩, ⟨trivial, ?_⟩, ⟨trivial, ?_⟩, trivial⟩
    all_goals first | exact ⟨by decide, by decide⟩ | decide
  exact (interpreted hstart hadm).trans (by decide +kernel)

end Engine

end WasmRedis
