import WasmRedis.Foundation.Runs
import WasmRedis.Requests

/-!
# Polling

`usePolling(path, revision)` keeps the last answer of the server to a path. An effect asks
for it, again two seconds after each answer, until the path or the revision changes; its
cleanup then aborts the request that is under way and clears the timer.

What happens in between is not the hook's to decide. React renders the component with
other arguments, and runs the cleanup and the effect some time later; requests that were
aborted are answered all the same, or fail; answers come in any order; and the server
changes all the time. So a run is a list of such events, and what each of them makes the
hook do is the code. An update of the state is applied where it is made: React applies
updates in the order in which they are made, and the properties of the state below do not
depend on when it is rendered.

What the code does not have, and a request or an answer carries here all the same, is
where it comes from: when it was sent, when the server answered, and from which state.
Time is the number of events.
-/

namespace WasmRedis

open GoString

namespace Polling

variable {S D : Type}

/-- A run of the effect, with what its closure holds. -/
structure Effect where
  /-- `path`. -/
  path : GoString
  /-- `controller.signal.aborted`. -/
  aborted : Bool
  /-- `timer`. -/
  timer : Option ℕ

/-- A request that is under way. -/
structure Fetch (S : Type) where
  /-- The effect whose `load` has sent it. -/
  effect : ℕ
  /-- The path it asks for. -/
  path : GoString
  /-- When it was sent. -/
  sent : ℕ
  /-- The state of the server when it answered, and when that was; `none` before. -/
  served : Option (S × ℕ)

/-- Data that has arrived. -/
structure Received (S D : Type) where
  /-- The data. -/
  value : D
  /-- The path that was asked for. -/
  path : GoString
  /-- The state that the server answered from. -/
  server : S
  /-- When the request was sent. -/
  sent : ℕ
  /-- When the server answered. -/
  served : ℕ
  /-- When the answer arrived. -/
  arrived : ℕ

/-- The data that a request has brought. -/
def Fetch.received (fetch : Fetch S) (value : D) (server : S) (served arrived : ℕ) :
    Received S D where
  value := value
  path := fetch.path
  server := server
  sent := fetch.sent
  served := served
  arrived := arrived

/-- The `result` of the hook. -/
structure Result (S D : Type) where
  /-- `result.path`; `none` is `null`. -/
  path : Option GoString
  /-- `result.data`; `none` is `null`. -/
  data : Option (Received S D)
  /-- `result.error`. -/
  error : GoString

/-- A timer that is pending. -/
structure Timer where
  /-- What `setTimeout` returned. -/
  id : ℕ
  /-- The effect whose `load` it calls. -/
  effect : ℕ

/-- What `load` hands to `setResult`. -/
inductive Update (S D : Type) where
  /-- The data of an effect. -/
  | data (effect : ℕ) (data : Received S D)
  /-- The error of an effect, whose request was sent and whose error arrived at these
  times. -/
  | error (effect : ℕ) (message : GoString) (sent arrived : ℕ)

/-- The effect that made an update. -/
def Update.effect : Update S D → ℕ
  | data effect _ | error effect _ _ _ => effect

/-- When the request was sent. -/
def Update.sent : Update S D → ℕ
  | data _ received => received.sent
  | error _ _ sent _ => sent

/-- When the response or the error arrived. -/
def Update.arrived : Update S D → ℕ
  | data _ received => received.arrived
  | error _ _ _ arrived => arrived

end Polling

/-- A component that calls `usePolling`, and what surrounds it. -/
structure Polling (S D : Type) where
  /-- The `path` it was last rendered with. -/
  path : GoString
  /-- The `revision` it was last rendered with. -/
  revision : ℕ
  /-- The state of the hook. -/
  result : Polling.Result S D
  /-- The effects that have been run, by number. -/
  effects : ℕ → Polling.Effect
  /-- How many they are. -/
  started : ℕ
  /-- The effect whose cleanup is still to be run. -/
  mounted : Option ℕ
  /-- The arguments that the effect was last run with. -/
  deps : Option (GoString × ℕ)
  /-- The requests that are under way. -/
  fetches : List (Polling.Fetch S)
  /-- The timers that are pending. -/
  timers : List Polling.Timer
  /-- What the next `setTimeout` returns. -/
  nextTimer : ℕ
  /-- The state of the server. -/
  server : S
  /-- The number of events so far. -/
  now : ℕ

namespace Polling

variable {S D : Type}

/-- What can happen. -/
inductive Event (S : Type) where
  /-- The component is rendered with these arguments. -/
  | render (path : GoString) (revision : ℕ)
  /-- React runs the effects that the last render calls for. -/
  | flush
  /-- React runs the cleanup alone, as it does when the component goes. -/
  | unmount
  /-- A pending timer fires. -/
  | fire (k : ℕ)
  /-- The server is in another state. -/
  | change (server : S)
  /-- The server answers a request. -/
  | serve (k : ℕ)
  /-- The answer to a request arrives. -/
  | respond (k : ℕ)
  /-- A request fails, with a message. -/
  | reject (k : ℕ) (message : GoString)

/-- The component when it is rendered for the first time: no effect has been run. -/
def start (path : GoString) (revision : ℕ) (server : S) : Polling S D where
  path := path
  revision := revision
  result := { path := none, data := none, error := [] }
  effects _ := { path := [], aborted := false, timer := none }
  started := 0
  mounted := none
  deps := none
  fetches := []
  timers := []
  nextTimer := 0
  server := server
  now := 0

variable (s : Polling S D)

/-- What `usePolling` returns: the data and the error. -/
def returned : Option (Received S D) × GoString :=
  if s.result.path = some s.path then (s.result.data, s.result.error) else (none, [])

/-- `load()` of an effect, up to its `await`. -/
def load (i : ℕ) : Polling S D :=
  { s with
    fetches := s.fetches
      ++ [{ effect := i, path := (s.effects i).path, sent := s.now, served := none }] }

/-- The cleanup of an effect. -/
def cleanup (i : ℕ) : Polling S D :=
  { s with
    effects := Function.update s.effects i { s.effects i with aborted := true }
    timers := match (s.effects i).timer with
      | none => s.timers
      | some id => s.timers.filter (fun timer => decide (timer.id ≠ id)) }

/-- The cleanup of the effect that was run last, if it had one. -/
def cleaned : Polling S D :=
  match s.mounted with
  | none => s
  | some i => { s.cleanup i with mounted := none }

/-- The closure of an effect is made. -/
def begun : Polling S D :=
  { s with
    effects := Function.update s.effects s.started
      { path := s.path, aborted := false, timer := none }
    started := s.started + 1
    mounted := some s.started }

/-- The effect. -/
def setup : Polling S D := if s.path = [] then s else s.begun.load s.started

/-- React runs the cleanup and the effect, if the arguments have changed. -/
def flush : Polling S D :=
  if s.deps = some (s.path, s.revision) then s
  else { s.cleaned with deps := some (s.path, s.revision) }.setup

/-- React runs the cleanup. -/
def unmount : Polling S D := { s.cleaned with deps := none }

/-- The end of the `try` block of `load`: the data has come. -/
def loaded (i : ℕ) (data : Received S D) : Option (Update S D) × Polling S D :=
  if !(s.effects i).aborted then
    (some (.data i data),
      { s with result := { path := some (s.effects i).path, data := some data, error := [] } })
  else (none, s)

/-- The `catch` block of `load`. -/
def failed (i sent : ℕ) (message : GoString) : Option (Update S D) × Polling S D :=
  if !(s.effects i).aborted then
    (some (.error i message sent s.now),
      { s with
        result :=
          { path := some (s.effects i).path
            data := if s.result.path = some (s.effects i).path then s.result.data else none
            error := message } })
  else (none, s)

/-- The `finally` block of `load`. -/
def finished (i : ℕ) : Polling S D :=
  if !(s.effects i).aborted then
    { s with
      effects := Function.update s.effects i { s.effects i with timer := some s.nextTimer }
      timers := s.timers ++ [{ id := s.nextTimer, effect := i }]
      nextTimer := s.nextTimer + 1 }
  else s

/-- A pending timer fires. -/
def fire (k : ℕ) : Polling S D :=
  match s.timers[k]? with
  | none => s
  | some timer => { s with timers := s.timers.eraseIdx k }.load timer.effect

/-- The server answers a request. -/
def serve (k : ℕ) : Polling S D :=
  match s.fetches[k]? with
  | none => s
  | some fetch =>
    match fetch.served with
    | some _ => s
    | none => { s with fetches := s.fetches.set k { fetch with served := some (s.server, s.now) } }

/-- A request fails. -/
def reject (k : ℕ) (message : GoString) : Option (Update S D) × Polling S D :=
  match s.fetches[k]? with
  | none => (none, s)
  | some fetch =>
    let ended := { s with fetches := s.fetches.eraseIdx k }.failed fetch.effect fetch.sent message
    (ended.1, ended.2.finished fetch.effect)

section

-- how the server answers a path, and `body.error`
variable (answer : S → GoString → Response D) (error : D → GoString)

/-- The answer to a request arrives. -/
def respond (k : ℕ) : Option (Update S D) × Polling S D :=
  match s.fetches[k]? with
  | none => (none, s)
  | some fetch =>
    match fetch.served with
    | none => (none, s)
    | some (server, served) =>
      match request error (answer server fetch.path) with
      | .error message => s.reject k message
      | .ok value =>
        let ended := { s with fetches := s.fetches.eraseIdx k }.loaded fetch.effect
          (fetch.received value server served s.now)
        (ended.1, ended.2.finished fetch.effect)

/-- An event happens; the answer is what it makes `load` hand to `setResult`. An event of a
request or a timer that is not there changes nothing. -/
def happen : Event S → Option (Update S D) × Polling S D
  | .render path revision => (none, { s with path := path, revision := revision })
  | .flush => (none, s.flush)
  | .unmount => (none, s.unmount)
  | .fire k => (none, s.fire k)
  | .change server => (none, { s with server := server })
  | .serve k => (none, s.serve k)
  | .respond k => s.respond answer error k
  | .reject k message => s.reject k message

/-- The component as a system that answers events. -/
def system : System (Polling S D) (Event S) (Option (Update S D)) where
  admits _ _ := True
  step s event := ((s.happen answer error event).1,
    { (s.happen answer error event).2 with now := s.now + 1 })

end

end Polling

end WasmRedis
