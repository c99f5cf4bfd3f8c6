import WasmRedis.EngineInvariant

/-!
# Lazy expiry cannot be observed

A reference map says what a client may expect of keys that expire: each key has
a value and perhaps a deadline, it is visible exactly while the clock is before
the deadline, and nothing but a `Set` or a `Delete` changes the map. It has no
sweep, no index, no storage, and nothing ever leaves it because of the clock.

The engine is compared with it over whole sessions. Keys disappear from the
state of the engine at four places, at whatever moment a read or a sweep meets
them; the storage calls fail as they please. The two answer alike
(`lazy_expiry`) because they are related by what is visible from now on
(`Models`), in which a removed key and an expired one are the same.
-/

namespace WasmRedis

open GoString

/-! ## The reference -/

/-- What the reference holds under a key. -/
structure Item where
  /-- The value. -/
  value : GoString
  /-- Whether it is a number. -/
  isNumber : Bool
  /-- The deadline, if there is one. -/
  deadline : Option Time
  deriving DecidableEq

/-- The item is visible while the clock is before its deadline. -/
def Item.live (now : Time) (item : Item) : Bool :=
  match item.deadline with
  | none => true
  | some deadline => decide (now < deadline)

/-- The reference map. -/
abbrev Reference := GoMap GoString Item

namespace Reference

/-- What is visible under a key. -/
def visible (now : Time) (ref : Reference) (key : GoString) : Option Item :=
  (ref.lookup key).filter (Item.live now)

/-- The deadlines that can be stored: those of the 64 bits. -/
def Fits (t : Time) : Prop := -2 ^ 63 ≤ t ∧ t < 2 ^ 63

instance (t : Time) : Decidable (Fits t) := inferInstanceAs (Decidable (_ ∧ _))

section Calls

variable (R : Type) [Strconv R] (defaultTTL : ℤ)

/-- A SET: refused if the duration is negative, if the value should be a number
and is not a finite one, or if the deadline cannot be stored. -/
def set (ref : Reference) (key value : GoString) (number : Bool) (ttl : ℤ) (now : Time) :
    Option Err × Reference :=
  let effective := if ttl = 0 then defaultTTL else ttl
  if ttl < 0 then (some (.new (str "le TTL ne peut pas être négatif")), ref)
  else if number && !Strconv.isFiniteNumber R value then
    (some (.new (str "nombre fini requis")), ref)
  else if 0 < effective ∧ ¬ Fits (now + effective) then
    (some (.new (str "date d'expiration hors des limites du stockage")), ref)
  else
    (none, ref.insert key
      { value := value, isNumber := number,
        deadline := if 0 < effective then some (now + effective) else none })

/-- A GET. -/
def get (ref : Reference) (key : GoString) (now : Time) : Except Err GoString :=
  match ref.visible now key with
  | none => .error .notFound
  | some item => .ok item.value

/-- The answer to a call, for the calls it answers, and the map after it. -/
def call (ref : Reference) : Call → Option Answer × Reference
  | .set key value number ttl now =>
    Prod.map (some ∘ .error) id (ref.set R defaultTTL key value number ttl now)
  | .get key now => (some (.value (ref.get key now)), ref)
  | .delete key => (some (.error none), ref.erase key)
  | _ => (none, ref)

/-- The reference as a system. The instants of a session are of no use to it. -/
def system : System Reference (Call × Time) (Option Answer) where
  admits _ _ := True
  step ref event := ref.call R defaultTTL event.1

end Calls

end Reference

/-! ## Sessions -/

namespace Call

/-- The calls whose results a client compares: `Set`, `Get` and `Delete`. -/
def observed : Call → Bool
  | set _ _ _ _ _ => true
  | get _ _ => true
  | delete _ => true
  | _ => false

/-- The calls of a session: those above, `GetWhere`, `SweepExpired`, `Flush`
and `Snapshot`. -/
def Ordinary : Call → Prop
  | execute _ _ _ => False
  | restore _ _ _ => False
  | close _ => False
  | _ => True

end Call

/-- What a client hears of an answer. -/
def heard (event : Call × Time) (answer : Answer) : Option Answer :=
  if event.1.observed then some answer else none

variable {R : Type} [LinearOrder R] [Zero R] [Strconv R]

namespace Engine

/-- **A session**: an engine and a clock that never goes back. An event is a
call, with an instant that the clock has reached when it ends. -/
def session : System (Engine R × Time) (Call × Time) Answer where
  admits s event := event.1.Ordinary ∧ event.1.Within s.2 event.2
  step s event := ((s.1.call event.1).1, ((s.1.call event.1).2, event.2))

/-- What a client hears in a session: a result for each `Set`, `Get` and
`Delete`. -/
def hears (e : Engine R) (t : Time) (events : List (Call × Time)) : List (Option Answer) :=
  List.zipWith heard events (session.answers (e, t) events)

/-- An engine that starts with no entries, under the configuration `cfg`: in
memory, or over a storage on which nothing was written. -/
inductive StartsEmpty (cfg : Config) : Engine R → Prop where
  /-- `NewMemory(cfg)`. -/
  | memory {abs : GoString → Except Err GoString} {e : Engine R} :
      newMemory abs cfg = .ok e → StartsEmpty cfg e
  /-- `NewWithStorage(store, cfg)`. -/
  | withStorage {abs : GoString → Except Err GoString} {r : RestoreOrders}
      {now : GoString → Time} {fails : ReadFailures} {e : Engine R} :
      newWithStorage abs (some Storage.empty) cfg r now fails = .ok e → StartsEmpty cfg e

end Engine

/-! ## The relation -/

/-- What the reference holds for an entry. -/
def Entry.toItem (entry : Entry) : Item :=
  { value := entry.value, isNumber := entry.isNumber,
    deadline := if Time.isZero entry.expiresAt then none else some entry.expiresAt }

theorem live_toItem (now : Time) (entry : Entry) :
    entry.toItem.live now = !expired entry now := by
  unfold Entry.toItem Item.live expired
  cases Time.isZero entry.expiresAt with
  | true => rfl
  | false =>
    show decide (now < entry.expiresAt) = !(!false && !decide (now < entry.expiresAt))
    rw [Bool.not_false, Bool.true_and, Bool.not_not]

/-- **The relation**: from the instant `t` on, the same is visible. -/
def Models (t : Time) (state : State) (ref : Reference) : Prop :=
  ∀ t', t ≤ t' → ∀ key, (visible t' state key).map Entry.toItem = ref.visible t' key

namespace Models

variable {t : Time} {state state' : State} {ref : Reference}

theorem empty (t : Time) : Models t ∅ ∅ := by
  intro t' _ key
  rw [visible_of_none (Finmap.lookup_empty key), Reference.visible, Finmap.lookup_empty]
  rfl

theorem mono (h : Models t state ref) {t' : Time} (ht : t ≤ t') : Models t' state ref :=
  fun t'' ht' key => h t'' (ht.trans ht') key

/-- Dropping what has expired leaves the reference as it is. -/
theorem of_sameFrom (h : Models t state ref) (hs : SameFrom t state' state) :
    Models t state' ref := by
  intro t' ht key
  rw [← h t' ht key]
  exact congrArg _ (hs t' ht key)

/-- A SET on both sides. -/
theorem insert (h : Models t state ref) (key : GoString) (entry : Entry) :
    Models t (state.insert key entry) (ref.insert key entry.toItem) := by
  intro t' ht k
  by_cases hk : k = key
  · subst hk
    rw [visible_of_lookup (Finmap.lookup_insert _), Reference.visible, Finmap.lookup_insert,
      Option.filter_some, live_toItem]
    cases expired entry t' <;> rfl
  · rw [Reference.visible, Finmap.lookup_insert_of_ne _ hk]
    refine Eq.trans ?_ (h t' ht k)
    exact congrArg _ (Expiry.alive_of_lookup_eq (Finmap.lookup_insert_of_ne _ hk))

/-- A DELETE on both sides. -/
theorem erase (h : Models t state ref) (key : GoString) :
    Models t (state.erase key) (ref.erase key) := by
  intro t' ht k
  by_cases hk : k = key
  · subst hk
    rw [visible_of_none (Finmap.lookup_erase _ _), Reference.visible, Finmap.lookup_erase]
    rfl
  · rw [Reference.visible, Finmap.lookup_erase_ne hk]
    refine Eq.trans ?_ (h t' ht k)
    exact congrArg _ (Expiry.alive_of_lookup_eq (Finmap.lookup_erase_ne hk))

end Models

/-! ## The calls -/

/-- The deadlines that can be stored are those that survive the 64 bits. -/
theorem fits_iff (t : Time) : Reference.Fits t ↔ Time.unix (Time.unixNano t) = t :=
  (Time.unix_unixNano_iff t).symm

namespace Engine

variable {e : Engine R} {t : Time} {ref : Reference}

omit [Zero R] [Strconv R] in
/-- What a read or a sweep removes had expired. -/
theorem Prunes.sameFrom {now : Time} {e e' : Engine R} (h : Prunes now e e') :
    SameFrom now e'.state e.state := by
  induction h with
  | refl => exact Expiry.AgreeFrom.refl
  | tail _ hlast ih =>
    obtain ⟨_, key, entry, hk, hx, rfl⟩ := hlast
    refine Expiry.AgreeFrom.trans ?_ ih
    rw [remove_state]
    refine Expiry.AgreeFrom.erase_dead expired_lasting (fun b hb => ?_)
    rw [hk] at hb
    cases hb
    exact hx

omit [LinearOrder R] [Zero R] [Strconv R] in
/-- The entry of a SET is the item of a SET. -/
theorem toItem_of_set (key value : GoString) (number : Bool) {effective : ℤ} {now : Time}
    (h : 0 < effective → Reference.Fits (now + effective)) :
    Entry.toItem { key := key, value := value, isNumber := number,
                   expiresAt := deadline effective now }
      = { value := value, isNumber := number,
          deadline := if 0 < effective then some (now + effective) else none } := by
  unfold Entry.toItem deadline
  by_cases hpos : 0 < effective
  · have hne : now + effective ≠ Time.zero := by
      rw [← (fits_iff _).mp (h hpos)]
      exact Time.unix_ne_zero _
    have hz : Time.isZero (now + effective) = false := decide_eq_false hne
    dsimp only
    rw [if_pos hpos, if_pos hpos, hz]
    rfl
  · dsimp only
    rw [if_neg hpos, if_neg hpos]
    rfl

/-- SET: the same answer, and the same is visible afterwards. -/
theorem set_models (hcl : e.closed = false) (h : Models t e.state ref) (key value : GoString)
    (number : Bool) (ttl : ℤ) (now : Time) :
    (e.set key value number ttl now).1
        = (ref.set R e.cfg.defaultTTL key value number ttl now).1
      ∧ Models t (e.set key value number ttl now).2.state
          (ref.set R e.cfg.defaultTTL key value number ttl now).2 := by
  unfold set Reference.set
  dsimp only
  by_cases hneg : ttl < 0
  · rw [if_pos hneg, if_pos hneg]
    exact ⟨rfl, h⟩
  rw [if_neg hneg, if_neg hneg]
  by_cases hnum : (number && !Strconv.isFiniteNumber R value) = true
  · rw [if_pos hnum, if_pos hnum]
    exact ⟨rfl, h⟩
  rw [if_neg hnum, if_neg hnum, hcl, if_neg Bool.false_ne_true]
  generalize (if ttl = 0 then e.cfg.defaultTTL else ttl) = effective
  by_cases hbad : 0 < effective ∧ ¬ Reference.Fits (now + effective)
  · have hbad' : 0 < effective
        ∧ Time.unix (Time.unixNano (deadline effective now)) ≠ deadline effective now := by
      rw [deadline, if_pos hbad.1]
      exact ⟨hbad.1, fun hr => hbad.2 ((fits_iff _).mpr hr)⟩
    rw [if_pos hbad, if_pos hbad']
    exact ⟨rfl, h⟩
  · have hok : ¬ (0 < effective
        ∧ Time.unix (Time.unixNano (deadline effective now)) ≠ deadline effective now) := by
      rintro ⟨hpos, hne⟩
      rw [deadline, if_pos hpos] at hne
      exact hbad ⟨hpos, fun hfit => hne ((fits_iff _).mp hfit)⟩
    have hfit : 0 < effective → Reference.Fits (now + effective) := fun hpos => by
      by_contra hne
      exact hbad ⟨hpos, hne⟩
    have hscalar : scalar value number = .ok (normalised R value number) :=
      scalar_ok (fun hn => by
        by_contra hfin
        rw [Bool.not_eq_true] at hfin
        exact hnum (by rw [hn, hfin]; rfl))
    rw [if_neg hbad, if_neg hok, Index.set_of_scalar hscalar]
    refine ⟨rfl, ?_⟩
    dsimp only
    rw [record_state, ← toItem_of_set key value number hfit]
    exact h.insert key _

omit [Zero R] [Strconv R] in
/-- GET: the same answer. -/
theorem get_models (h : Models t e.state ref) {now : Time} (hnow : t ≤ now) (key : GoString) :
    (e.get key now).1 = ref.get key now := by
  unfold Reference.get
  rw [get_eq, ← h now hnow key]
  cases visible now e.state key <;> rfl

/-- **A step of a session**: the engine and the reference stay related, and the
client hears the same. -/
theorem session_step {defaultTTL : ℤ} {event : Call × Time}
    (hadm : session.admits (e, t) event) (hcl : e.closed = false)
    (hcfg : e.cfg.defaultTTL = defaultTTL) (h : Models t e.state ref) :
    heard event (e.call event.1).1 = (ref.call R defaultTTL event.1).1
      ∧ (e.call event.1).2.closed = false
      ∧ (e.call event.1).2.cfg.defaultTTL = defaultTTL
      ∧ Models event.2 (e.call event.1).2.state (ref.call R defaultTTL event.1).2 := by
  obtain ⟨c, until_⟩ := event
  obtain ⟨hord, hle, hreads⟩ := hadm
  -- a call that only prunes
  have hprunes : ∀ (now : Time) (e' : Engine R), t ≤ now ∧ now ≤ until_ → Prunes now e e' →
      e'.closed = false ∧ e'.cfg.defaultTTL = defaultTTL ∧ Models until_ e'.state ref := by
    intro now e' hnow hp
    have hchanges : Changes now now e e' := hp.changes
    obtain ⟨_, hcfg', hcl'⟩ := hchanges.frame
    refine ⟨by rw [hcl', hcl], by rw [hcfg', hcfg], ?_⟩
    exact ((h.mono hnow.1).of_sameFrom hp.sameFrom).mono hnow.2
  -- a call that only moves data to the storage
  have honly : ∀ e' : Engine R, OnlyStorage e e' →
      e'.closed = false ∧ e'.cfg.defaultTTL = defaultTTL ∧ Models until_ e'.state ref := by
    rintro e' ⟨store, buffer, rfl⟩
    exact ⟨hcl, hcfg, h.mono hle⟩
  cases c with
  | set key value number ttl now =>
    subst hcfg
    obtain ⟨hans, hmodels⟩ := set_models hcl h key value number ttl now
    have hchanges : Changes t until_ e (e.set key value number ttl now).2 :=
      set_changes (hreads now rfl).1 (hreads now rfl).2
    obtain ⟨_, hcfg', hcl'⟩ := hchanges.frame
    refine ⟨congrArg (some ∘ Answer.error) hans, hcl'.trans hcl, congrArg Config.defaultTTL hcfg',
      hmodels.mono hle⟩
  | get key now =>
    exact ⟨congrArg (some ∘ Answer.value) (get_models h (hreads now rfl).1 key),
      hprunes now _ (hreads now rfl) (getEntry_prunes e key now)⟩
  | delete key =>
    obtain ⟨hc, _⟩ | ⟨_, hdel⟩ := delete_cases e key
    · rw [hcl] at hc
      exact Bool.noConfusion hc
    · show some (Answer.error (e.delete key).1) = some (Answer.error none)
        ∧ (e.delete key).2.closed = false ∧ (e.delete key).2.cfg.defaultTTL = defaultTTL
        ∧ Models until_ (e.delete key).2.state (ref.erase key)
      rw [hdel]
      refine ⟨rfl, (remove_closed e key).trans hcl, ?_, ?_⟩
      · rw [remove_cfg, hcfg]
      · rw [remove_state]
        exact (h.mono hle).erase key
  | getWhere r field operator operand number now =>
    exact ⟨rfl, hprunes now _ (hreads now rfl)
      (getWhere_prunes r e field operator operand number now)⟩
  | sweepExpired r now => exact ⟨rfl, hprunes now _ (hreads now rfl) (sweepExpired_prunes r e now)⟩
  | flush reply => exact ⟨rfl, honly _ (flush_only e reply)⟩
  | snapshot r now replies => exact ⟨rfl, honly _ (snapshot_only r e now replies)⟩
  | execute r cmd now => exact hord.elim
  | restore r now fails => exact hord.elim
  | close reply => exact hord.elim

/-! ## The start -/

/-- An engine that starts empty is the empty map. -/
theorem StartsEmpty.models {cfg : Config} (h : StartsEmpty cfg e) (t : Time) :
    e.closed = false ∧ e.cfg = cfg ∧ Models t e.state ∅ := by
  cases h with
  | memory h =>
    rw [(newMemory_ok h).2]
    exact ⟨rfl, rfl, Models.empty t⟩
  | @withStorage abs r now fails e h =>
    obtain ⟨_, state, sequence, index, hreplays, _, rfl⟩ := newWithStorage_restored h
    -- the storage holds nothing, so what was restored is empty
    obtain ⟨hempty, _⟩ := hreplays.unique Storage.replays_empty
    refine ⟨rfl, rfl, ?_⟩
    have hdrop : dropExpired r.expiry now state = ∅ := by
      refine Finmap.ext_lookup (fun key => ?_)
      rw [lookup_dropExpired, hempty, visible_of_none (Finmap.lookup_empty key),
        Finmap.lookup_empty]
    show Models t (dropExpired r.expiry now state) ∅
    rw [hdrop]
    exact Models.empty t

end Engine

/-! ## The calls that are not heard -/

namespace Reference

omit [LinearOrder R] [Zero R] in
/-- A call that is not observed is nothing to the reference. -/
theorem call_of_not_observed (defaultTTL : ℤ) (ref : Reference) {c : Call}
    (h : c.observed = false) : ref.call R defaultTTL c = (none, ref) := by
  cases c with
  | set key value number ttl now => exact absurd h Bool.noConfusion
  | get key now => exact absurd h Bool.noConfusion
  | delete key => exact absurd h Bool.noConfusion
  | _ => rfl

omit [LinearOrder R] [Zero R] in
/-- What the reference answers depends on the observed calls alone. -/
theorem answers_observed (defaultTTL : ℤ) (ref : Reference) (events : List (Call × Time)) :
    ((system R defaultTTL).answers ref events).reduceOption
      = ((system R defaultTTL).answers ref
          (((events.map Prod.fst).filter Call.observed).map (fun c => (c, 0)))).reduceOption := by
  induction events generalizing ref with
  | nil => rfl
  | cons event events ih =>
    cases hobs : event.1.observed with
    | true =>
      have hcons : ∀ (x : Option Answer) (l : List (Option Answer)),
          (x :: l).reduceOption = [x].reduceOption ++ l.reduceOption :=
        fun x l => List.reduceOption_append [x] l
      rw [List.map_cons, List.filter_cons_of_pos hobs, List.map_cons]
      show List.reduceOption ((ref.call R defaultTTL event.1).1
          :: (system R defaultTTL).answers (ref.call R defaultTTL event.1).2 events)
        = List.reduceOption ((ref.call R defaultTTL event.1).1
          :: (system R defaultTTL).answers (ref.call R defaultTTL event.1).2
            (((events.map Prod.fst).filter Call.observed).map (fun c => (c, 0))))
      rw [hcons, hcons (ref.call R defaultTTL event.1).1 (System.answers _ _ (List.map _ _)), ih]
    | false =>
      rw [List.map_cons, List.filter_cons_of_neg (by rw [hobs]; exact Bool.false_ne_true)]
      show List.reduceOption ((ref.call R defaultTTL event.1).1
        :: (system R defaultTTL).answers (ref.call R defaultTTL event.1).2 events) = _
      rw [call_of_not_observed defaultTTL ref hobs]
      exact ih ref

end Reference

namespace Engine

/-- **Lazy expiry is unobservable.** Under any configuration, in memory or over
an empty storage whose calls fail in any pattern, every result of `Set`, `Get`
and `Delete` in a session is that of the reference map. So it is the same in
any two sessions with the same `Set`, `Get` and `Delete` calls, whatever
`GetWhere`, `SweepExpired`, `Flush` and `Snapshot` calls stand between them, and
whichever of the two is in memory. -/
theorem lazy_expiry (cfg : Config) :
    (∀ (e : Engine R) (t : Time) (events : List (Call × Time)),
      StartsEmpty cfg e → session.Admits (e, t) events →
      e.hears t events = (Reference.system R cfg.defaultTTL).answers ∅ events) ∧
    (∀ (e e' : Engine R) (t t' : Time) (events events' : List (Call × Time)),
      StartsEmpty cfg e → session.Admits (e, t) events →
      StartsEmpty cfg e' → session.Admits (e', t') events' →
      (events.map Prod.fst).filter Call.observed = (events'.map Prod.fst).filter Call.observed →
      (e.hears t events).reduceOption = (e'.hears t' events').reduceOption) := by
  have hreference : ∀ (e : Engine R) (t : Time) (events : List (Call × Time)),
      StartsEmpty cfg e → session.Admits (e, t) events →
      e.hears t events = (Reference.system R cfg.defaultTTL).answers ∅ events := by
    intro e t events hstart hadm
    obtain ⟨hcl, hcfg, hmodels⟩ := hstart.models t
    refine (System.simulation heard (fun (s : Engine R × Time) (ref : Reference) =>
      s.1.closed = false ∧ s.1.cfg.defaultTTL = cfg.defaultTTL ∧ Models s.2 s.1.state ref)
      hadm ⟨hcl, by rw [hcfg], hmodels⟩ (fun s ref event hevent hrel => ?_)).1
    exact session_step hevent hrel.1 hrel.2.1 hrel.2.2
  refine ⟨hreference, fun e e' t t' events events' hs ha hs' ha' hsame => ?_⟩
  rw [hreference e t events hs ha, hreference e' t' events' hs' ha',
    Reference.answers_observed, hsame, ← Reference.answers_observed]

/-- A key set for five units of time, swept after three, is still read, and is
gone at its deadline. -/
theorem lazy_expiry_five_units :
    hears (new : Engine ℕ) 0
        [(.set (str "k") (str "v") false 5 10, 10), (.sweepExpired RangeOrder.sorted 13, 13),
          (.get (str "k") 14, 14), (.get (str "k") 15, 15)]
      = [some (.error none), none, some (.value (.ok (str "v"))),
          some (.value (.error .notFound))] := by
  have hstart : StartsEmpty Config.default (new : Engine ℕ) :=
    StartsEmpty.memory (show newMemory Except.ok Config.default = .ok new from rfl)
  refine ((lazy_expiry Config.default).1 _ 0 _ hstart ?_).trans (by decide)
  exact ⟨⟨trivial, Call.within_of_reads (fun _ h => h) (by decide) le_rfl⟩,
    ⟨trivial, Call.within_of_reads (fun _ h => h) (by decide) le_rfl⟩,
    ⟨trivial, Call.within_of_reads (fun _ h => h) (by decide) le_rfl⟩,
    ⟨trivial, Call.within_of_reads (fun _ h => h) (by decide) le_rfl⟩, trivial⟩

end Engine

end WasmRedis
