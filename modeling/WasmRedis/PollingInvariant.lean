import WasmRedis.Polling

/-!
# What a poll has under way

An effect that has been cleaned up is aborted, and all that its `load` does after an
`await` is done unless it is aborted. So of all the effects that have been run only the
mounted one still counts, and it has at every moment one request under way or one timer
pending, and not both (`Sound`).

`Moves` says once what an event can do, and the invariant is read off it.
-/

namespace WasmRedis

open GoString

namespace Polling

variable {S D : Type} {s s' : Polling S D}

/-! ## The cleanup leaves the rest alone -/

theorem cleaned_path (s : Polling S D) : s.cleaned.path = s.path := by
  unfold cleaned
  split <;> rfl

theorem cleaned_fetches (s : Polling S D) : s.cleaned.fetches = s.fetches := by
  unfold cleaned
  split <;> rfl

theorem cleaned_result (s : Polling S D) : s.cleaned.result = s.result := by
  unfold cleaned
  split <;> rfl

theorem cleaned_now (s : Polling S D) : s.cleaned.now = s.now := by
  unfold cleaned
  split <;> rfl

theorem cleaned_started (s : Polling S D) : s.cleaned.started = s.started := by
  unfold cleaned
  split <;> rfl

theorem setup_eq {s : Polling S D} (hpath : s.path ≠ []) : s.setup = s.begun.load s.started :=
  if_neg hpath

/-- The effect that is run after a cleanup. -/
theorem setup_cleaned {s : Polling S D} (hpath : s.path ≠ []) (deps : Option (GoString × ℕ)) :
    { s.cleaned with deps := deps }.setup
      = { s.cleaned with deps := deps }.begun.load s.cleaned.started :=
  setup_eq (s := { s.cleaned with deps := deps }) ((cleaned_path s).trans_ne hpath)

/-! ## What an event can do -/

/-- The state after the answer to a request of an effect that is not aborted: the request
is over, the result is another, and a timer is pending. -/
def settled (s : Polling S D) (k i : ℕ) (result : Result S D) : Polling S D :=
  { s with
    fetches := s.fetches.eraseIdx k
    result := result
    effects := Function.update s.effects i { s.effects i with timer := some s.nextTimer }
    timers := s.timers ++ [{ id := s.nextTimer, effect := i }]
    nextTimer := s.nextTimer + 1 }

section Moves

variable (answer : S → GoString → Response D) (error : D → GoString)

/-- The update that the end of a request makes, and the result it gives. -/
inductive Ends (s : Polling S D) (fetch : Fetch S) : Update S D → Result S D → Prop where
  /-- The data has come. -/
  | data {server : S} {served : ℕ} {value : D} :
    fetch.served = some (server, served) →
    request error (answer server fetch.path) = .ok value →
    Ends s fetch
      (.data fetch.effect (fetch.received value server served s.now))
      { path := some (s.effects fetch.effect).path
        data := some (fetch.received value server served s.now)
        error := [] }
  /-- The request has failed. -/
  | error (message : GoString) :
    Ends s fetch (.error fetch.effect message fetch.sent s.now)
      { path := some (s.effects fetch.effect).path
        data := if s.result.path = some (s.effects fetch.effect).path then s.result.data else none
        error := message }

/-- What an event can do: the update it makes, and the next state but for the time. -/
inductive Moves (s : Polling S D) : Option (Update S D) → Polling S D → Prop where
  /-- Nothing, or what is not up to the hook. -/
  | stay (path : GoString) (revision : ℕ) (server : S) :
    Moves s none { s with path := path, revision := revision, server := server }
  /-- The effect is cleaned up, and none is run. -/
  | stop (deps : Option (GoString × ℕ)) : Moves s none { s.cleaned with deps := deps }
  /-- The effect is cleaned up, and run again. -/
  | restart (deps : Option (GoString × ℕ)) :
    s.path ≠ [] → Moves s none { s.cleaned with deps := deps }.setup
  /-- A timer fires. -/
  | poll (k : ℕ) (timer : Timer) :
    s.timers[k]? = some timer →
    Moves s none ({ s with timers := s.timers.eraseIdx k }.load timer.effect)
  /-- The server answers a request. -/
  | serve (k : ℕ) (fetch : Fetch S) :
    s.fetches[k]? = some fetch → fetch.served = none →
    Moves s none
      { s with fetches := s.fetches.set k { fetch with served := some (s.server, s.now) } }
  /-- A request of an effect that is aborted is over. -/
  | drop (k : ℕ) (fetch : Fetch S) :
    s.fetches[k]? = some fetch → (s.effects fetch.effect).aborted = true →
    Moves s none { s with fetches := s.fetches.eraseIdx k }
  /-- A request of an effect that is not aborted is over. -/
  | settle (k : ℕ) (fetch : Fetch S) (update : Update S D) (result : Result S D) :
    s.fetches[k]? = some fetch → (s.effects fetch.effect).aborted = false →
    Ends answer error s fetch update result →
    Moves s (some update) (s.settled k fetch.effect result)

variable {answer error}

theorem flush_moves (s : Polling S D) : Moves answer error s none s.flush := by
  unfold flush
  split_ifs with hdeps
  · exact .stay s.path s.revision s.server
  · by_cases hpath : s.path = []
    · unfold setup
      rw [if_pos ((cleaned_path s).trans hpath)]
      exact .stop _
    · exact .restart _ hpath

theorem loaded_eq (s : Polling S D) (i : ℕ) (data : Received S D) :
    s.loaded i data = if (s.effects i).aborted then (none, s)
      else (some (.data i data),
        { s with
          result := { path := some (s.effects i).path, data := some data, error := [] } }) := by
  unfold loaded
  cases (s.effects i).aborted with
  | true => rfl
  | false => rfl

theorem failed_eq (s : Polling S D) (i sent : ℕ) (message : GoString) :
    s.failed i sent message = if (s.effects i).aborted then (none, s)
      else (some (.error i message sent s.now),
        { s with
          result :=
            { path := some (s.effects i).path
              data := if s.result.path = some (s.effects i).path then s.result.data else none
              error := message } }) := by
  unfold failed
  cases (s.effects i).aborted with
  | true => rfl
  | false => rfl

/-- Nothing follows the answer to a request of an effect that is aborted. -/
theorem finished_dropped {k i : ℕ} (h : (s.effects i).aborted = true) :
    { s with fetches := s.fetches.eraseIdx k }.finished i
      = { s with fetches := s.fetches.eraseIdx k } :=
  if_neg (by rw [show _ = true from h]; decide)

/-- What follows the answer to a request of an effect that is not aborted. -/
theorem finished_settled {k i : ℕ} (h : (s.effects i).aborted = false) (result : Result S D) :
    { s with fetches := s.fetches.eraseIdx k, result := result }.finished i
      = s.settled k i result :=
  if_pos (by rw [show _ = false from h]; decide)

theorem reject_moves (s : Polling S D) (k : ℕ) (message : GoString) :
    Moves answer error s (s.reject k message).1 (s.reject k message).2 := by
  unfold reject
  cases hk : s.fetches[k]? with
  | none => exact .stay s.path s.revision s.server
  | some fetch =>
    dsimp only
    rw [failed_eq]
    cases haborted : (s.effects fetch.effect).aborted with
    | true =>
      have hmove : Moves answer error s none _ := .drop k fetch hk haborted
      rw [← finished_dropped haborted] at hmove
      rw [if_pos rfl]
      exact hmove
    | false =>
      have hmove : Moves answer error s _ _ := .settle k fetch _ _ hk haborted (.error message)
      rw [← finished_settled haborted] at hmove
      rw [if_neg Bool.false_ne_true]
      exact hmove

theorem respond_moves (s : Polling S D) (k : ℕ) :
    Moves answer error s (s.respond answer error k).1 (s.respond answer error k).2 := by
  unfold respond
  cases hk : s.fetches[k]? with
  | none => exact .stay s.path s.revision s.server
  | some fetch =>
    dsimp only
    cases hserved : fetch.served with
    | none => exact .stay s.path s.revision s.server
    | some served =>
      dsimp only
      cases hrequest : request error (answer served.1 fetch.path) with
      | error message => exact reject_moves s k message
      | ok value =>
        dsimp only
        rw [loaded_eq]
        cases haborted : (s.effects fetch.effect).aborted with
        | true =>
          have hmove : Moves answer error s none _ := .drop k fetch hk haborted
          rw [← finished_dropped haborted] at hmove
          rw [if_pos rfl]
          exact hmove
        | false =>
          have hmove : Moves answer error s _ _ :=
            .settle k fetch _ _ hk haborted (.data hserved hrequest)
          rw [← finished_settled haborted] at hmove
          rw [if_neg Bool.false_ne_true]
          exact hmove

/-- **An event does one of these.** -/
theorem happen_moves (s : Polling S D) (event : Event S) :
    Moves answer error s (s.happen answer error event).1 (s.happen answer error event).2 := by
  cases event with
  | render path revision => exact .stay path revision s.server
  | flush => exact flush_moves s
  | unmount => exact .stop none
  | fire k =>
    show Moves answer error s none (s.fire k)
    unfold fire
    cases hk : s.timers[k]? with
    | none => exact .stay s.path s.revision s.server
    | some timer => exact .poll k timer hk
  | change server => exact .stay s.path s.revision server
  | serve k =>
    show Moves answer error s none (s.serve k)
    unfold serve
    cases hk : s.fetches[k]? with
    | none => exact .stay s.path s.revision s.server
    | some fetch =>
      dsimp only
      cases hserved : fetch.served with
      | none => exact .serve k fetch hk hserved
      | some served => exact .stay s.path s.revision s.server
  | respond k => exact respond_moves s k
  | reject k message => exact reject_moves s k message

end Moves

/-! ## What is under way -/

/-- A request whose effect is not aborted. -/
def Alive (s : Polling S D) (fetch : Fetch S) : Prop := (s.effects fetch.effect).aborted = false

instance (fetch : Fetch S) : Decidable (s.Alive fetch) :=
  inferInstanceAs (Decidable ((s.effects fetch.effect).aborted = false))

/-- How many requests that are not aborted there are, and how many pending timers. -/
def work (s : Polling S D) : ℕ :=
  s.fetches.countP (fun fetch => decide (s.Alive fetch)) + s.timers.length

theorem countP_alive {fetches : List (Fetch S)} (h : ∀ fetch ∈ fetches, ¬ s.Alive fetch) :
    fetches.countP (fun fetch => decide (s.Alive fetch)) = 0 :=
  List.countP_eq_zero.mpr (fun fetch hmem hlive => h fetch hmem (of_decide_eq_true hlive))

section Invariant

variable (answer : S → GoString → Response D) (error : D → GoString)

/-- **The invariant.** -/
structure Sound (s : Polling S D) : Prop where
  /-- Of the effects that have been run, the mounted one is the one that is not aborted. -/
  mounted : ∀ i, s.mounted = some i ↔ i < s.started ∧ (s.effects i).aborted = false
  /-- A request asks for the path of its effect, and was sent before it was answered. -/
  fetches : ∀ fetch ∈ s.fetches, fetch.effect < s.started
    ∧ fetch.path = (s.effects fetch.effect).path ∧ fetch.sent ≤ s.now
    ∧ ∀ server served, fetch.served = some (server, served) →
      fetch.sent ≤ served ∧ served ≤ s.now
  /-- A timer is the one that the mounted effect has set last. -/
  timers : ∀ timer ∈ s.timers, s.mounted = some timer.effect
    ∧ (s.effects timer.effect).timer = some timer.id
  /-- One thing is under way at most. -/
  work : s.work ≤ 1
  /-- The data of the result is what the server answered for the path of the result. -/
  result : ∀ data, s.result.data = some data → s.result.path = some data.path
    ∧ request error (answer data.server data.path) = .ok data.value
    ∧ data.sent ≤ data.served ∧ data.served ≤ data.arrived

variable {answer error}

theorem sound_start (path : GoString) (revision : ℕ) (server : S) :
    Sound answer error (start path revision server : Polling S D) where
  mounted i := by
    show none = some i ↔ i < 0 ∧ _
    simp
  fetches _ hmem := absurd hmem List.not_mem_nil
  timers _ hmem := absurd hmem List.not_mem_nil
  work := zero_le_one
  result data hdata := by
    change none = some data at hdata
    cases hdata

/-- Time passes. -/
theorem Sound.later (h : Sound answer error s) {now : ℕ} (hnow : s.now ≤ now) :
    Sound answer error { s with now := now } where
  mounted := h.mounted
  fetches fetch hmem := by
    obtain ⟨heffect, hpath, hsent, hserved⟩ := h.fetches fetch hmem
    exact ⟨heffect, hpath, hsent.trans hnow, fun server served heq =>
      ⟨(hserved server served heq).1, (hserved server served heq).2.trans hnow⟩⟩
  timers := h.timers
  work := h.work
  result := h.result

/-- What is alive is of the mounted effect. -/
theorem Sound.mounted_of_alive (h : Sound answer error s) {fetch : Fetch S}
    (hmem : fetch ∈ s.fetches) (halive : s.Alive fetch) : s.mounted = some fetch.effect :=
  (h.mounted _).mpr ⟨(h.fetches fetch hmem).1, halive⟩

/-- Where no effect is mounted there are no timers. -/
theorem Sound.timers_of_none (h : Sound answer error s) (hnone : s.mounted = none) :
    s.timers = [] := by
  refine List.eq_nil_iff_forall_not_mem.mpr (fun timer hmem => ?_)
  have hmounted := (h.timers timer hmem).1
  rw [hnone] at hmounted
  cases hmounted

/-- And no requests that are not aborted. -/
theorem Sound.not_alive_of_none (h : Sound answer error s) (hnone : s.mounted = none)
    {fetch : Fetch S} (hmem : fetch ∈ s.fetches) : ¬ s.Alive fetch := by
  intro halive
  have hmounted := h.mounted_of_alive hmem halive
  rw [hnone] at hmounted
  cases hmounted

/-! ## The cleanup -/

theorem cleanup_path (s : Polling S D) (i j : ℕ) :
    ((s.cleanup i).effects j).path = (s.effects j).path := by
  show (Function.update s.effects i _ j).path = _
  by_cases hj : j = i
  · rw [hj, Function.update_self]
  · rw [Function.update_of_ne hj]

/-- The cleanup aborts its effect, and no other. -/
theorem cleanup_aborted (s : Polling S D) (i j : ℕ) :
    ((s.cleanup i).effects j).aborted = false ↔ j ≠ i ∧ (s.effects j).aborted = false := by
  show (Function.update s.effects i _ j).aborted = false ↔ _
  by_cases hj : j = i
  · rw [hj, Function.update_self]
    simp
  · rw [Function.update_of_ne hj]
    simp [hj]

/-- The cleanup of the mounted effect clears the timer there is. -/
theorem Sound.cleanup_timers (h : Sound answer error s) {i : ℕ} (hi : s.mounted = some i) :
    (s.cleanup i).timers = [] := by
  have hid : ∀ timer ∈ s.timers, (s.effects i).timer = some timer.id := by
    intro timer hmem
    obtain ⟨hmounted, htimer⟩ := h.timers timer hmem
    rw [hi] at hmounted
    rwa [Option.some.inj hmounted]
  unfold cleanup
  dsimp only
  cases htimer : (s.effects i).timer with
  | none =>
    refine List.eq_nil_iff_forall_not_mem.mpr (fun timer hmem => ?_)
    rw [hid timer hmem] at htimer
    cases htimer
  | some id =>
    refine List.filter_eq_nil_iff.mpr (fun timer hmem => ?_)
    rw [hid timer hmem] at htimer
    simp [Option.some.inj htimer]

/-- After the cleanup of the mounted effect all effects are aborted. -/
theorem Sound.cleanup_dead (h : Sound answer error s) {i : ℕ} (hi : s.mounted = some i) {j : ℕ}
    (hj : j < s.started) : ((s.cleanup i).effects j).aborted ≠ false := by
  intro hlive
  obtain ⟨hne, halive⟩ := (cleanup_aborted s i j).mp hlive
  have hmounted := (h.mounted j).mpr ⟨hj, halive⟩
  rw [hi] at hmounted
  exact hne (Option.some.inj hmounted).symm

/-- **After the cleanup nothing is under way** that is not aborted. -/
theorem Sound.cleaned (h : Sound answer error s) :
    Sound answer error s.cleaned ∧ s.cleaned.mounted = none := by
  unfold Polling.cleaned
  cases hi : s.mounted with
  | none => exact ⟨h, hi⟩
  | some i =>
    dsimp only
    refine ⟨⟨fun j => ?_, fun fetch hmem => ?_, fun timer hmem => ?_, ?_, h.result⟩, rfl⟩
    · exact iff_of_false (Option.some_ne_none j).symm (fun hj => h.cleanup_dead hi hj.1 hj.2)
    · obtain ⟨heffect, hpath, hrest⟩ := h.fetches fetch hmem
      exact ⟨heffect, hpath.trans (cleanup_path s i _).symm, hrest⟩
    · change timer ∈ (s.cleanup i).timers at hmem
      rw [h.cleanup_timers hi] at hmem
      exact absurd hmem List.not_mem_nil
    · have hdead : ∀ fetch ∈ s.fetches, ¬ (s.cleanup i).Alive fetch := fun fetch hmem =>
        h.cleanup_dead hi (h.fetches fetch hmem).1
      show s.fetches.countP (fun fetch => decide ((s.cleanup i).Alive fetch))
        + (s.cleanup i).timers.length ≤ 1
      rw [countP_alive hdead, h.cleanup_timers hi]
      exact zero_le_one

/-! ## Requests and timers -/

/-- An item, and those that are left when it is taken out. -/
theorem perm_of_getElem? {α : Type} {l : List α} {k : ℕ} {a : α} (h : l[k]? = some a) :
    (a :: l.eraseIdx k).Perm l := by
  obtain ⟨hk, rfl⟩ := List.getElem?_eq_some_iff.mp h
  exact List.getElem_cons_eraseIdx_perm hk

/-- Sending a request, where nothing is under way. -/
theorem Sound.load (h : Sound answer error s) {i : ℕ} (hi : s.mounted = some i)
    (hidle : s.work = 0) : Sound answer error (s.load i) where
  mounted := h.mounted
  fetches fetch hmem := by
    rcases List.mem_append.mp hmem with hmem | hmem
    · exact h.fetches fetch hmem
    · obtain rfl := List.mem_singleton.mp hmem
      refine ⟨((h.mounted i).mp hi).1, rfl, le_rfl, fun server served heq => ?_⟩
      cases heq
  timers := h.timers
  work := by
    have hone := List.countP_le_length (p := fun fetch : Fetch S => decide (s.Alive fetch))
      (l := [{ effect := i, path := (s.effects i).path, sent := s.now, served := none }])
    show List.countP (fun fetch => decide (s.Alive fetch)) (s.fetches ++ _) + s.timers.length ≤ 1
    rw [List.countP_append]
    unfold Polling.work at hidle
    rw [List.length_singleton] at hone
    omega
  result := h.result

theorem begun_effects (s : Polling S D) {j : ℕ} (hj : j < s.started) :
    s.begun.effects j = s.effects j := Function.update_of_ne hj.ne _ _

/-- The effect that is run is mounted, and the only one that is not aborted. -/
theorem Sound.begun_mounted (h : Sound answer error s) (hnone : s.mounted = none) (j : ℕ) :
    s.begun.mounted = some j ↔ j < s.begun.started ∧ (s.begun.effects j).aborted = false := by
  show some s.started = some j ↔ j < s.started + 1 ∧ _
  by_cases hj : j = s.started
  · have hlive : (s.begun.effects j).aborted = false := by
      rw [hj]
      show (Function.update s.effects s.started _ s.started).aborted = false
      rw [Function.update_self]
    exact iff_of_true (congrArg some hj.symm) ⟨by omega, hlive⟩
  · refine iff_of_false (fun heq => hj (Option.some.inj heq).symm) ?_
    rintro ⟨hlt, hlive⟩
    have hlt' : j < s.started := by omega
    rw [begun_effects s hlt'] at hlive
    have hmounted := (h.mounted j).mpr ⟨hlt', hlive⟩
    rw [hnone] at hmounted
    cases hmounted

/-- Nothing is under way then. -/
theorem Sound.begun_idle (h : Sound answer error s) (hnone : s.mounted = none) :
    s.begun.work = 0 := by
  have hdead : ∀ fetch ∈ s.fetches, ¬ s.begun.Alive fetch := by
    intro fetch hmem halive
    rw [Alive, begun_effects s (h.fetches fetch hmem).1] at halive
    exact h.not_alive_of_none hnone hmem halive
  show s.fetches.countP _ + s.timers.length = 0
  rw [h.timers_of_none hnone]
  exact countP_alive hdead

/-- **The effect** starts where no other is mounted. -/
theorem Sound.setup (h : Sound answer error s) (hnone : s.mounted = none) (hpath : s.path ≠ []) :
    Sound answer error s.setup := by
  have hidle := h.begun_idle hnone
  have hbegun : Sound answer error s.begun := by
    refine ⟨h.begun_mounted hnone, fun fetch hmem => ?_, fun timer hmem => ?_, ?_, h.result⟩
    · obtain ⟨heffect, hfetch, hrest⟩ := h.fetches fetch hmem
      refine ⟨Nat.lt_succ_of_lt heffect, ?_, hrest⟩
      rw [begun_effects s heffect]
      exact hfetch
    · change timer ∈ s.timers at hmem
      rw [h.timers_of_none hnone] at hmem
      exact absurd hmem List.not_mem_nil
    · rw [hidle]
      exact zero_le_one
  rw [setup_eq hpath]
  exact hbegun.load rfl hidle

/-- A timer fires, and a request is sent. -/
theorem Sound.poll (h : Sound answer error s) {k : ℕ} {timer : Timer}
    (hk : s.timers[k]? = some timer) :
    Sound answer error ({ s with timers := s.timers.eraseIdx k }.load timer.effect) := by
  have hperm := (perm_of_getElem? hk).length_eq
  have hwork := h.work
  unfold Polling.work at hwork
  rw [List.length_cons] at hperm
  have hidle : s.fetches.countP (fun fetch => decide (s.Alive fetch))
      + (s.timers.eraseIdx k).length = 0 := by omega
  refine Sound.load (s := { s with timers := s.timers.eraseIdx k })
    ⟨h.mounted, h.fetches, fun timer' hmem => ?_, ?_, h.result⟩
    (h.timers timer (List.mem_of_getElem? hk)).1 hidle
  · exact h.timers timer' (List.mem_of_mem_eraseIdx hmem)
  · exact le_of_eq_of_le hidle zero_le_one

/-- The server answers a request. -/
theorem Sound.serve (h : Sound answer error s) {k : ℕ} {fetch : Fetch S}
    (hk : s.fetches[k]? = some fetch) : Sound answer error
      { s with fetches := s.fetches.set k { fetch with served := some (s.server, s.now) } } where
  mounted := h.mounted
  fetches fetch' hmem := by
    rcases List.mem_or_eq_of_mem_set hmem with hmem | rfl
    · exact h.fetches fetch' hmem
    · obtain ⟨heffect, hpath, hsent, _⟩ := h.fetches fetch (List.mem_of_getElem? hk)
      refine ⟨heffect, hpath, hsent, fun server served heq => ?_⟩
      cases heq
      exact ⟨hsent, le_rfl⟩
  timers := h.timers
  work := by
    obtain ⟨hlt, hget⟩ := List.getElem?_eq_some_iff.mp hk
    have hset := (List.set_perm_cons_eraseIdx hlt
      { fetch with served := some (s.server, s.now) }).countP_eq
        (fun fetch => decide (s.Alive fetch))
    have hold := (perm_of_getElem? hk).countP_eq (fun fetch => decide (s.Alive fetch))
    have hwork := h.work
    unfold Polling.work at hwork
    rw [← hold, List.countP_cons] at hwork
    show List.countP (fun fetch => decide (s.Alive fetch)) (s.fetches.set k _)
      + s.timers.length ≤ 1
    rw [hset, List.countP_cons]
    exact hwork
  result := h.result

/-- A request is over, of an effect that is aborted. -/
theorem Sound.drop (h : Sound answer error s) (k : ℕ) :
    Sound answer error { s with fetches := s.fetches.eraseIdx k } where
  mounted := h.mounted
  fetches fetch hmem := h.fetches fetch (List.mem_of_mem_eraseIdx hmem)
  timers := h.timers
  work := le_trans (Nat.add_le_add_right ((List.eraseIdx_sublist _ _).countP_le) _) h.work
  result := h.result

/-- **When a request is over whose effect is not aborted**, nothing else was under way. -/
theorem Sound.alone (h : Sound answer error s) {k : ℕ} {fetch : Fetch S}
    (hk : s.fetches[k]? = some fetch) (halive : s.Alive fetch) :
    s.timers = [] ∧ ∀ fetch' ∈ s.fetches.eraseIdx k, ¬ s.Alive fetch' := by
  have hperm := (perm_of_getElem? hk).countP_eq (fun fetch => decide (s.Alive fetch))
  have hwork := h.work
  unfold Polling.work at hwork
  rw [← hperm, List.countP_cons_of_pos (p := fun fetch => decide (s.Alive fetch))
    (decide_eq_true halive)] at hwork
  constructor
  · exact List.length_eq_zero_iff.mp (by omega)
  · have hzero : (s.fetches.eraseIdx k).countP (fun fetch => decide (s.Alive fetch)) = 0 := by
      omega
    exact fun fetch' hmem hlive => List.countP_eq_zero.mp hzero fetch' hmem (decide_eq_true hlive)

theorem settled_aborted (s : Polling S D) (k i : ℕ) (result : Result S D) (j : ℕ) :
    ((s.settled k i result).effects j).aborted = (s.effects j).aborted := by
  show (Function.update s.effects i _ j).aborted = _
  by_cases hj : j = i
  · rw [hj, Function.update_self]
  · rw [Function.update_of_ne hj]

theorem settled_path (s : Polling S D) (k i : ℕ) (result : Result S D) (j : ℕ) :
    ((s.settled k i result).effects j).path = (s.effects j).path := by
  show (Function.update s.effects i _ j).path = _
  by_cases hj : j = i
  · rw [hj, Function.update_self]
  · rw [Function.update_of_ne hj]

/-- The result that the end of a request gives. -/
theorem Sound.ends (h : Sound answer error s) {fetch : Fetch S} (hmem : fetch ∈ s.fetches)
    {update : Update S D} {result : Result S D} (hends : Ends answer error s fetch update result) :
    ∀ data, result.data = some data → result.path = some data.path
      ∧ request error (answer data.server data.path) = .ok data.value
      ∧ data.sent ≤ data.served ∧ data.served ≤ data.arrived := by
  obtain ⟨_, hpath, _, hserved⟩ := h.fetches fetch hmem
  intro data hdata
  cases hends with
  | data heq hrequest =>
    cases hdata
    exact ⟨congrArg some hpath.symm, hrequest, (hserved _ _ heq).1, (hserved _ _ heq).2⟩
  | error message =>
    dsimp only at hdata ⊢
    split_ifs at hdata with hsame
    rw [← hsame]
    exact h.result data hdata

/-- A request is over, of an effect that is not aborted. -/
theorem Sound.settle (h : Sound answer error s) {k : ℕ} {fetch : Fetch S}
    (hk : s.fetches[k]? = some fetch) (halive : s.Alive fetch) {update : Update S D}
    {result : Result S D} (hends : Ends answer error s fetch update result) :
    Sound answer error (s.settled k fetch.effect result) := by
  have hmem := List.mem_of_getElem? hk
  obtain ⟨htimers, hdead⟩ := h.alone hk halive
  refine ⟨fun i => ?_, fun fetch' hmem' => ?_, fun timer htimer => ?_, ?_, h.ends hmem hends⟩
  · rw [settled_aborted]
    exact h.mounted i
  · obtain ⟨heffect, hpath, hrest⟩ := h.fetches fetch' (List.mem_of_mem_eraseIdx hmem')
    exact ⟨heffect, hpath.trans (settled_path s k _ result _).symm, hrest⟩
  · change timer ∈ s.timers ++ _ at htimer
    rw [htimers, List.nil_append] at htimer
    obtain rfl := List.mem_singleton.mp htimer
    refine ⟨h.mounted_of_alive hmem halive, ?_⟩
    show (Function.update s.effects fetch.effect _ fetch.effect).timer = _
    rw [Function.update_self]
  · have hdead' : ∀ fetch' ∈ s.fetches.eraseIdx k,
        ¬ (s.settled k fetch.effect result).Alive fetch' := by
      intro fetch' hmem' hlive
      rw [Alive, settled_aborted] at hlive
      exact hdead fetch' hmem' hlive
    show (s.fetches.eraseIdx k).countP _ + (s.timers ++ _).length ≤ 1
    rw [countP_alive hdead', htimers]
    exact le_rfl

/-- **What an event can do keeps the invariant.** -/
theorem Sound.moves (h : Sound answer error s) {update : Option (Update S D)}
    (hmoves : Moves answer error s update s') : Sound answer error s' := by
  cases hmoves with
  | stay path revision server =>
    exact ⟨h.mounted, h.fetches, h.timers, h.work, h.result⟩
  | stop deps =>
    have hc := h.cleaned.1
    exact ⟨hc.mounted, hc.fetches, hc.timers, hc.work, hc.result⟩
  | restart deps hpath =>
    obtain ⟨hc, hnone⟩ := h.cleaned
    refine Sound.setup ?_ hnone ((cleaned_path s).trans_ne hpath)
    exact ⟨hc.mounted, hc.fetches, hc.timers, hc.work, hc.result⟩
  | poll k timer hk => exact h.poll hk
  | serve k fetch hk _ => exact h.serve hk
  | drop k fetch _ _ => exact h.drop k
  | settle k fetch update result hk halive hends => exact h.settle hk halive hends

end Invariant

end Polling

end WasmRedis
