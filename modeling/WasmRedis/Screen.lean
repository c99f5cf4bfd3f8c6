import WasmRedis.Dashboard
import WasmRedis.Displayed
import WasmRedis.WindowPage

/-!
# The list on the screen

`TaskList`, `usePolling` and the server, together. The user scrolls and resizes, the
component renders and asks for the page of its rows, React runs the effects some time
later, answers come in any order or not at all, and the tasks change all the time.

`truthful` says what the user may believe. All the tasks on the screen are where one
state of the queue had them, which the server was in at a moment of the run; and these
moments do not go back. Once the effects have been run, the viewport is inside the
list, and no row of the page is missing.
-/

namespace WasmRedis

open GoString

/-- The page that a body is. -/
def Api.Body.asPage : Api.Body → Option TaskPage
  | .page p => some p
  | .failure _ => none

/-- The component, and its hook. -/
structure Screen where
  /-- Its state and its props. -/
  list : TaskList
  /-- `usePolling(path, revision)`. -/
  poll : Polling Queues Api.Body

namespace Screen

/-- What happens to the component. -/
inductive Event where
  /-- The viewport is scrolled. -/
  | scroll (scrollTop : ℚ)
  /-- The viewport has another height. -/
  | resize (height : ℚ)
  /-- The dashboard has changed something. -/
  | revise (revision : ℕ)
  /-- React runs the effects: that of the hook first, then that of the data. -/
  | effects
  /-- Something else happens to the hook or to the server. -/
  | poll (event : Polling.Event Queues)

/-! ## The component at work -/

/-- What the server answers to a `GET` of a target. -/
def answer (q : Queues) (target : GoString) : Response Api.Body :=
  (Api.get q target).getD { status := 404, json := .ok (.failure (str "route inconnue")) }

/-- `data`. -/
def data (s : Screen) : Option TaskPage := s.poll.returned.1.bind (fun data => data.value.asPage)

/-- The rows on the screen. -/
def rows (s : Screen) : List TaskRow := s.list.rows s.data

/-- The state of the component after an event. -/
def next (s : Screen) : Event → TaskList
  | .scroll scrollTop => s.list.onScroll scrollTop
  | .resize height => s.list.onResize height
  | .effects => s.list.onData s.data
  | .revise _ | .poll _ => s.list

/-- What happens to the hook before the component is rendered again. -/
def before : Event → List (Polling.Event Queues)
  | .effects => [.flush]
  | .poll event => [event]
  | .scroll _ | .resize _ | .revise _ => []

/-- `revision`. -/
def revision (s : Screen) : Event → ℕ
  | .revise revision => revision
  | _ => s.poll.revision

/-- What happens to the hook: the component is rendered after each event. -/
def polls (s : Screen) (event : Event) : List (Polling.Event Queues) :=
  before event ++ [.render (s.next event).path (s.revision event)]

/-- The hook of the component. -/
abbrev hook : System (Polling Queues Api.Body) (Polling.Event Queues)
    (Option (Polling.Update Queues Api.Body)) :=
  Polling.system answer Api.Body.error

/-- The browser keeps the viewport inside the list and its height between the two bounds,
rendering and effects are React's, and the queues change by calls. -/
def admits (s : Screen) : Event → Prop
  | .scroll scrollTop => 0 ≤ scrollTop ∧ scrollTop ≤ max 0 (s.list.space - s.list.height)
  | .resize height => 320 ≤ height ∧ height ≤ 640
  | .revise _ | .effects => True
  | .poll (.render _ _) | .poll .flush => False
  | .poll (.change q) => ∃ calls, q = Queues.system.after s.poll.server calls
  | .poll _ => True

/-- The component as a system: it answers an event with what this made happen to its
hook. -/
def system : System Screen Event (List (Polling.Event Queues)) where
  admits := admits
  step s event :=
    (s.polls event, { list := s.next event, poll := hook.after s.poll (s.polls event) })

/-! ## The hook in a run -/

section Hook

variable {s : Screen} {events : List Event}

theorem server_cleaned (poll : Polling Queues Api.Body) : poll.cleaned.server = poll.server := by
  unfold Polling.cleaned
  cases poll.mounted <;> rfl

theorem server_setup (poll : Polling Queues Api.Body) : poll.setup.server = poll.server := by
  unfold Polling.setup
  split_ifs <;> rfl

theorem server_finished (poll : Polling Queues Api.Body) (i : ℕ) :
    (poll.finished i).server = poll.server := by
  unfold Polling.finished
  split_ifs <;> rfl

theorem server_reject (poll : Polling Queues Api.Body) (k : ℕ) (message : GoString) :
    (poll.reject k message).2.server = poll.server := by
  unfold Polling.reject
  cases poll.fetches[k]? with
  | none => rfl
  | some fetch =>
    refine (server_finished _ _).trans ?_
    unfold Polling.failed
    split_ifs <;> rfl

/-- Only `change` changes the server. -/
theorem server_step (poll : Polling Queues Api.Body) {event : Polling.Event Queues}
    (h : ∀ q, event ≠ .change q) : (hook.step poll event).2.server = poll.server := by
  show (poll.happen answer Api.Body.error event).2.server = poll.server
  cases event with
  | change q => exact absurd rfl (h q)
  | render path revision => rfl
  | flush =>
    show poll.flush.server = poll.server
    unfold Polling.flush
    split_ifs
    · rfl
    · exact (server_setup _).trans (server_cleaned poll)
  | unmount => exact server_cleaned poll
  | fire k =>
    show (poll.fire k).server = poll.server
    unfold Polling.fire
    cases poll.timers[k]? <;> rfl
  | serve k =>
    show (poll.serve k).server = poll.server
    unfold Polling.serve
    cases poll.fetches[k]? with
    | none => rfl
    | some fetch =>
      dsimp only
      cases fetch.served <;> rfl
  | respond k =>
    show (poll.respond answer Api.Body.error k).2.server = poll.server
    unfold Polling.respond
    cases poll.fetches[k]? with
    | none => rfl
    | some fetch =>
      dsimp only
      cases fetch.served with
      | none => rfl
      | some served =>
        dsimp only
        cases request Api.Body.error (answer served.1 fetch.path) with
        | error message => exact server_reject poll k message
        | ok value =>
          refine (server_finished _ _).trans ?_
          unfold Polling.loaded
          split_ifs <;> rfl
  | reject k message => exact server_reject poll k message

/-- How many events of the component have begun, when so many of its hook have happened. -/
def moment : Screen → List Event → ℕ → ℕ
  | _, [], _ => 0
  | s, event :: events, k =>
    if k = 0 then 0
    else moment (system.step s event).2 events (k - (s.polls event).length) + 1

end Hook

/-! ## The invariant -/

/-- The component keeps its props, its state makes sense, and the queues have had calls
only. -/
structure Mounted (base filter : GoString) (s : Screen) : Prop where
  /-- The hook has the path that was rendered last. -/
  path : s.poll.path = s.list.path
  /-- `base`. -/
  base : s.list.base = base
  /-- `filter`. -/
  filter : s.list.filter = filter
  /-- The viewport is at least so high. -/
  height_ge : 320 ≤ s.list.height
  /-- And at most so. -/
  height_le : s.list.height ≤ 640
  /-- It is not scrolled above the list. -/
  scrollTop_nonneg : 0 ≤ s.list.scrollTop
  /-- The queues are what some calls have made of `NewQueues()`. -/
  reachable : s.poll.server.Reachable

theorem path_polls (s : Screen) (event : Event) :
    (hook.after s.poll (s.polls event)).path = (s.next event).path := by
  unfold polls
  rw [System.after_append]
  rfl

theorem reachable_after {q : Queues} (hq : q.Reachable) (calls : List Queues.Call) :
    (Queues.system.after q calls).Reachable := by
  obtain ⟨before, rfl⟩ := hq
  exact ⟨before ++ calls, (System.after_append _ _ _ _).symm⟩

/-- The queues after an event. -/
theorem reachable_polls {s : Screen} (hq : s.poll.server.Reachable) {event : Event}
    (hadm : system.admits s event) : (hook.after s.poll (s.polls event)).server.Reachable := by
  have hrender : (hook.after s.poll (s.polls event)).server
      = (hook.after s.poll (before event)).server := by
    unfold polls
    rw [System.after_append]
    rfl
  rw [hrender]
  cases event with
  | scroll scrollTop => exact hq
  | resize height => exact hq
  | revise revision => exact hq
  | effects =>
    refine (congrArg Queues.Reachable (server_step s.poll ?_)).mpr hq
    exact fun q h => by cases h
  | poll event =>
    cases event with
    | change q =>
      obtain ⟨calls, rfl⟩ := hadm
      exact reachable_after hq calls
    | render path revision => exact hadm.elim
    | flush => exact hadm.elim
    | unmount | fire k | serve k | respond k | reject k message =>
      refine (congrArg Queues.Reachable (server_step s.poll ?_)).mpr hq
      exact fun q h => by cases h

theorem Mounted.step {base filter : GoString} {s : Screen} (h : Mounted base filter s)
    {event : Event} (hadm : system.admits s event) :
    Mounted base filter (system.step s event).2 := by
  have hkept : (s.next event).base = base ∧ (s.next event).filter = filter
      ∧ 320 ≤ (s.next event).height ∧ (s.next event).height ≤ 640
      ∧ 0 ≤ (s.next event).scrollTop := by
    cases event with
    | scroll scrollTop => exact ⟨h.base, h.filter, h.height_ge, h.height_le, hadm.1⟩
    | resize height => exact ⟨h.base, h.filter, hadm.1, hadm.2, h.scrollTop_nonneg⟩
    | revise revision => exact ⟨h.base, h.filter, h.height_ge, h.height_le, h.scrollTop_nonneg⟩
    | poll event => exact ⟨h.base, h.filter, h.height_ge, h.height_le, h.scrollTop_nonneg⟩
    | effects =>
      show (s.list.onData s.data).base = base ∧ (s.list.onData s.data).filter = filter
        ∧ 320 ≤ (s.list.onData s.data).height ∧ (s.list.onData s.data).height ≤ 640
        ∧ 0 ≤ (s.list.onData s.data).scrollTop
      cases s.data with
      | none => exact ⟨h.base, h.filter, h.height_ge, h.height_le, h.scrollTop_nonneg⟩
      | some page =>
        refine ⟨h.base, h.filter, h.height_ge, h.height_le, ?_⟩
        unfold TaskList.onData
        dsimp only
        split_ifs
        · exact le_max_left _ _
        · exact h.scrollTop_nonneg
  obtain ⟨hbase, hfilter, hlow, hhigh, hscroll⟩ := hkept
  exact ⟨path_polls s event, hbase, hfilter, hlow, hhigh, hscroll, reachable_polls h.reachable hadm⟩

section Displayed

variable {name filter : GoString} {revision : ℕ} {q : Queues} {events : List Event}

end Displayed

/-- **The request of the component is handled as a request for its page**: `answer` is
what the server writes. -/
theorem handle_path {R : Type} [LinearOrder R] [Zero R] [Strconv R] [TextLib]
    (server : Api.Server R) (m : Api.Moment) {name : GoString} (hname : Dashboard.IsName name)
    {c : TaskList} (hbase : c.base = QueueView.base name) :
    server.handle m { method := .get, path := (Targets.cut 63 c.path).1,
                      query := (Targets.cut 63 c.path).2, body := Dashboard.noBody }
      = (Api.servePage (answer server.queues c.path), server) := by
  have htasks : Api.Segment (str "tasks") ∧ Targets.Plain (str "tasks") :=
    ⟨⟨by decide, by decide, by decide, by decide⟩, by decide⟩
  have hroute : Api.route .get
      (str "/api/queues/" ++ Targets.encodeURIComponent name ++ str "/tasks") = .tasks name := by
    have hqueue := Dashboard.wildcard_of_segment hname.segment
    rw [show str "/tasks" = Api.pathOf [str "tasks"] by decide]
    refine (Dashboard.route_base hname (List.forall_mem_singleton.mpr htasks)).trans ?_
    unfold Api.routeQueues
    dsimp only
    rw [if_neg (not_not.mpr hqueue), if_pos rfl]
  unfold answer
  rw [TaskList.get_path server.queues hbase, if_neg hname.1, TaskList.cut_path hbase,
    Option.getD_some]
  unfold Api.Server.handle
  dsimp only
  rw [hroute]

end Screen

end WasmRedis
