import WasmRedis.Batches
import WasmRedis.Survival

/-!
# What has been acknowledged

A `Flush`, a `Snapshot` or a `Close` that returns nil tells a client that what it
has written is safe. `acknowledged_kept` says what that is worth: a value that was
set before comes back until something writes under its key or its time is over,
through any number of crashes, in and between calls, of storage calls that fail and
of starts that fail.

The proof is about the ledger alone. Before the acknowledgement the current map
has the value; after it every map has it that a crash may bring back; and no event
but a write under the key changes this.
-/

namespace WasmRedis

open GoString

/-- What a SET puts that is not refused. -/
theorem Reference.set_of_none {R : Type} [Strconv R] {defaultTTL : ℤ} {ref : Reference}
    {key value : GoString} {number : Bool} {ttl : ℤ} {now : Time}
    (h : (ref.set R defaultTTL key value number ttl now).1 = none) :
    (ref.set R defaultTTL key value number ttl now).2 = ref.insert key
      { value := value, isNumber := number,
        deadline := if 0 < (if ttl = 0 then defaultTTL else ttl)
          then some (now + if ttl = 0 then defaultTTL else ttl) else none } := by
  unfold set at h ⊢
  by_cases hneg : ttl < 0
  · rw [if_pos hneg] at h
    cases h
  rw [if_neg hneg] at h ⊢
  by_cases hnum : (number && !Strconv.isFiniteNumber R value) = true
  · rw [if_pos hnum] at h
    cases h
  rw [if_neg hnum] at h ⊢
  by_cases hfit : 0 < (if ttl = 0 then defaultTTL else ttl)
      ∧ ¬ Fits (now + if ttl = 0 then defaultTTL else ttl)
  · rw [if_pos hfit] at h
    cases h
  · rw [if_neg hfit]

/-- An item of a duration is visible until its time is over. -/
theorem Item.live_eq_not_over (value : GoString) (number : Bool) (duration : ℤ) (now now' : Time) :
    Item.live now' { value := value, isNumber := number,
                     deadline := if 0 < duration then some (now + duration) else none }
      = !decide (0 < duration ∧ now + duration ≤ now') := by
  by_cases hlasts : 0 < duration
  · rw [if_pos hlasts]
    show decide (now' < now + duration) = _
    by_cases hover : now + duration ≤ now'
    · rw [decide_eq_true (And.intro hlasts hover), decide_eq_false (not_lt.mpr hover)]
      rfl
    · rw [decide_eq_true (not_le.mp hover),
        decide_eq_false (fun h : 0 < duration ∧ now + duration ≤ now' => hover h.2)]
      rfl
  · rw [if_neg hlasts, decide_eq_false (fun h : 0 < duration ∧ now + duration ≤ now' => hlasts h.1)]
    rfl

namespace Ledger

variable {R : Type} [LinearOrder R] [Zero R] [Strconv R] [TextLib] {key : GoString} {item : Item}
  {l l' : Ledger} {answer : Option Answer}

/-- The map has the item under the key. -/
def Shows (key : GoString) (item : Item) (l : Ledger) : Prop := l.current.lookup key = some item

/-- Every map has it that may come back. -/
def Holds (key : GoString) (item : Item) (l : Ledger) : Prop :=
  ∀ ref ∈ l.maps, ref.lookup key = some item

omit [TextLib] in
theorem Holds.shows (h : Holds key item l) : Shows key item l :=
  h l.current (List.mem_append_right _ (List.mem_singleton_self _))

variable (R) in
omit [LinearOrder R] [Zero R] in
/-- An event that writes under a key. -/
def Writes (key : GoString) : Happening → Prop
  | .call c _ => (Asked.call c).Writes R key
  | _ => False

/-- A call that does not write under the key leaves the map as it is there. -/
theorem Shows.call {c : Call} {before : Time} (h : Shows key item l)
    (hallows : Allows R l (.call c before) answer l') (hquiet : ¬ (Asked.call c).Writes R key) :
    Shows key item l' := by
  cases hallows with
  | call _ => exact (l.current.lookup_turn hquiet).trans h
  | failed _ _ => exact h
  | acknowledged _ => exact h

/-- **What is acknowledged is everywhere.** -/
theorem Shows.acknowledged {c : Call} {before : Time} (h : Shows key item l) (hc : c.UsesStorage)
    (hallows : Allows R l (.call c before) answer l') (hnil : answer = some (.ended .nil)) :
    Holds key item l' := by
  cases hallows with
  | call hnot => exact absurd hc hnot
  | failed _ hne => exact absurd (Answer.ended.inj (Option.some.inj hnil)) hne
  | acknowledged _ =>
    intro ref hmem
    rw [List.mem_singleton.mp hmem]
    exact h

/-- **It stays there**, whatever happens but a write under the key. -/
theorem Holds.allows {event : Happening} (h : Holds key item l)
    (hallows : Allows R l event answer l') (hquiet : ¬ Writes R key event) :
    Holds key item l' := by
  cases hallows with
  | call _ =>
    intro ref hmem
    obtain hmem | hmem := List.mem_append.mp hmem
    · exact h ref hmem
    · rw [List.mem_singleton.mp hmem]
      exact (l.current.lookup_turn hquiet).trans h.shows
  | failed _ _ => exact h
  | acknowledged _ =>
    intro ref hmem
    rw [List.mem_singleton.mp hmem]
    exact h.shows
  | stop => exact h
  | refused => exact h
  | start hmem =>
    intro ref hmem'
    rw [List.mem_singleton.mp hmem']
    exact h _ hmem

/-- A SET that is accepted. -/
theorem shows_set {value : GoString} {number : Bool} {ttl : ℤ} {now before : Time}
    (hallows : Allows R l (.call (.set key value number ttl now) before) answer l')
    (hnil : answer = some (.error none)) :
    Shows key { value := value, isNumber := number,
                deadline := if 0 < (if ttl = 0 then l.defaultTTL else ttl)
                  then some (now + if ttl = 0 then l.defaultTTL else ttl) else none } l' := by
  cases hallows with
  | call _ =>
    have hset : (l.current.set R l.defaultTTL key value number ttl now).1 = none :=
      Answer.error.inj (Option.some.inj hnil)
    show (l.current.set R l.defaultTTL key value number ttl now).2.lookup key = _
    rw [Reference.set_of_none hset]
    exact Finmap.lookup_insert _
  | failed hc _ => exact absurd hc id
  | acknowledged hc => exact absurd hc id

/-- A GET of what the map has. -/
theorem Shows.get {now before : Time} (h : Shows key item l)
    (hallows : Allows R l (.call (.get key now) before) answer l') :
    answer = some (.value (if item.live now then .ok item.value else .error .notFound)) := by
  cases hallows with
  | call _ =>
    show some (Answer.value (l.current.get key now)) = _
    unfold Reference.get Reference.visible
    rw [h]
    cases hlive : item.live now with
    | true => rw [Option.filter_some, if_pos hlive, if_pos rfl]
    | false =>
      rw [Option.filter_some, hlive]
      rfl
  | failed hc _ => exact absurd hc id
  | acknowledged hc => exact absurd hc id

end Ledger

namespace World

variable {R : Type} [LinearOrder R] [Zero R] [Strconv R] [TextLib]

/-- From a world that keeps to a ledger, a run is a run of the ledger, and leads to
such a world. -/
theorem Kept.run {w : World R} {l : Ledger} (h : w.Kept l) {events : List Happening}
    (hrun : lives.Admits w events) :
    ∃ l', (Ledger.specification R).Runs l (events.zip (lives.answers w events)) l'
      ∧ (lives.after w events).Kept l' :=
  Specification.refines Kept hrun h (fun _ _ _ hadm h => kept_step hadm h)

/-- **What is acknowledged is kept.** In any run from an empty storage: a `Set` returns
nil, the calls that follow it in the same life do not write under its key, and then a
`Flush`, a `Snapshot` or a `Close` returns nil. Whatever happens afterwards – stops in
and between calls, starts that fail or not, storage calls that fail, other calls – as
long as nothing writes under the key, a `Get` of it returns the value, until its time
is over. -/
theorem acknowledged_kept {t : Time} (ht : 0 ≤ t) {before between after : List Happening}
    {key value : GoString} {number : Bool} {ttl : ℤ} {now u v now' u' : Time} {c : Call}
    {e : Engine R}
    (hrun : lives.Admits (init t : World R)
      (before ++ .call (.set key value number ttl now) u :: (between ++ .call c v
        :: (after ++ [.call (.get key now') u']))))
    (hup : (lives.after (init t : World R) before).phase = .up e)
    (hset : (lives.answer (init t : World R) before (.call (.set key value number ttl now) u))
      = some (.error none))
    (hbetween : ∀ event ∈ between, (∃ c u, event = .call c u) ∧ ¬ Ledger.Writes R key event)
    (hc : c.UsesStorage)
    (hack : lives.answer (init t : World R)
      (before ++ .call (.set key value number ttl now) u :: between) (.call c v)
        = some (.ended .nil))
    (hafter : ∀ event ∈ after, ¬ Ledger.Writes R key event) :
    lives.answer (init t : World R)
      (before ++ .call (.set key value number ttl now) u :: (between ++ .call c v :: after))
        (.call (.get key now') u')
      = some (.value
          (if 0 < (if ttl = 0 then e.cfg.defaultTTL else ttl)
              ∧ now + (if ttl = 0 then e.cfg.defaultTTL else ttl) ≤ now'
            then .error .notFound else .ok value)) := by
  obtain ⟨hrun₁, ⟨hadm₁, hrest₁⟩⟩ := (System.admits_append _ _ _ _).mp hrun
  obtain ⟨hrun₂, ⟨hadm₂, hrest₂⟩⟩ := (System.admits_append _ _ _ _).mp hrest₁
  obtain ⟨hrun₃, ⟨hadm₃, _⟩⟩ := (System.admits_append _ _ _ _).mp hrest₂
  -- the ledger when the value is set
  obtain ⟨l₁, _, hkept₁⟩ := (kept_init ht).run hrun₁
  have hdefault : l₁.defaultTTL = e.cfg.defaultTTL := by
    obtain ⟨hopen, _⟩ := hadm₁.2.call
    exact (hkept₁.follows e hup (hopen e hup)).ttl.symm
  obtain ⟨l₂, hallows₁, hkept₂⟩ := kept_step hadm₁ hkept₁
  have hshows := Ledger.shows_set hallows₁ hset
  rw [hdefault] at hshows
  -- it is still there when it is acknowledged
  obtain ⟨l₃, hruns₃, hkept₃⟩ := hkept₂.run hrun₂
  have hshows₃ := hruns₃.invariant (I := Ledger.Shows key _) hshows
    (fun l event answer l' hmem hallows hshow => by
      obtain ⟨⟨c, u, rfl⟩, hquiet⟩ := hbetween event (List.of_mem_zip hmem).1
      exact hshow.call hallows hquiet)
  obtain ⟨l₄, hallows₄, hkept₄⟩ := kept_step hadm₂ hkept₃
  rw [System.answer, System.after_append] at hack
  have hholds := hshows₃.acknowledged hc hallows₄ hack
  -- from then on it is everywhere
  obtain ⟨l₅, hruns₅, hkept₅⟩ := hkept₄.run hrun₃
  have hholds₅ := hruns₅.invariant (I := Ledger.Holds key _) hholds
    (fun l event answer l' hmem hallows hhold =>
      hhold.allows hallows (hafter event (List.of_mem_zip hmem).1))
  obtain ⟨l₆, hallows₆, _⟩ := kept_step hadm₃ hkept₅
  have hget := hholds₅.shows.get hallows₆
  rw [System.answer, System.after_append]
  show (lives.step (lives.after (lives.step _ _).2 (between ++ .call c v :: after)) _).1 = _
  rw [System.after_append]
  refine hget.trans (congrArg (some ∘ Answer.value) ?_)
  rw [Item.live_eq_not_over]
  by_cases hover : 0 < (if ttl = 0 then e.cfg.defaultTTL else ttl)
      ∧ now + (if ttl = 0 then e.cfg.defaultTTL else ttl) ≤ now'
  · rw [if_pos hover, decide_eq_true hover]
    rfl
  · rw [if_neg hover, decide_eq_false hover]
    rfl

/-- A key is acknowledged; another is not, and the process stops in its flush. -/
def flushedAndStopped : List Happening :=
  [.call (.set (str "b") (str "2") false 0 3) 3, .call (.flush (.stop 1)) 4,
    .start Except.ok Config.default RestoreOrders.sorted (fun _ => 5) {} 5]

omit [TextLib] in
theorem acknowledged_kept_flushedAndStopped :
    let _ := TextLib.ascii
    lives.answer (init 0 : World ℕ)
      ([.start Except.ok Config.default RestoreOrders.sorted (fun _ => 0) {} 0]
        ++ .call (.set (str "a") (str "1") false 0 1) 1
        :: ([] ++ .call (.flush .ok) 2 :: flushedAndStopped))
      (.call (.get (str "a") 6) 6) = some (.value (.ok (str "1"))) := by
  let _ := TextLib.ascii
  have hat : ∀ {c : Call} {lo now hi : Time}, (∀ t, c.Reads t → t = now) → lo ≤ now → now ≤ hi →
      c.Within lo hi := Call.within_of_reads
  have hrun : lives.Admits (init 0 : World ℕ)
      ([.start Except.ok Config.default RestoreOrders.sorted (fun _ => 0) {} 0]
        ++ .call (.set (str "a") (str "1") false 0 1) 1
        :: ([] ++ .call (.flush .ok) 2
          :: (flushedAndStopped ++ [.call (.get (str "a") 6) 6]))) := by
    refine ⟨⟨⟨⟨_, rfl⟩, le_rfl, fun _ => ⟨le_rfl, le_rfl⟩⟩, trivial⟩,
      ⟨⟨⟨_, rfl⟩, hat (fun _ h => h) ?_ ?_⟩, ?_⟩, ⟨⟨⟨_, rfl⟩, ?_, fun _ h => h.elim⟩, ?_⟩,
      ⟨⟨⟨_, rfl⟩, hat (fun _ h => h) ?_ ?_⟩, ?_⟩, ⟨⟨⟨_, rfl⟩, ?_, fun _ h => h.elim⟩, ?_⟩,
      ⟨⟨⟨_, rfl⟩, ?_, fun _ => ⟨show (4 : ℤ) ≤ 5 by decide, show (5 : ℤ) ≤ 5 by decide⟩⟩,
        trivial⟩,
      ⟨⟨⟨_, rfl⟩, hat (fun _ h => h) ?_ ?_⟩, ?_⟩, trivial⟩
    all_goals first | decide | exact fun _ h => Phase.up.inj h ▸ rfl
  refine acknowledged_kept le_rfl hrun rfl rfl (fun _ h => absurd h List.not_mem_nil) trivial rfl
    (fun event hmem => ?_)
  simp only [flushedAndStopped, List.mem_cons, List.not_mem_nil, or_false] at hmem
  rcases hmem with rfl | rfl | rfl
  · exact fun hw => absurd (show str "b" = str "a" from hw) (by decide)
  · exact id
  · exact id

end World

end WasmRedis
