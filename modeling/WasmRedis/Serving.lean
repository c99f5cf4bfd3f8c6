import WasmRedis.Bookkeeping
import WasmRedis.Server

/-!
# What clients see of the server

Behind the handlers a client sees the queues and one map. A request comes to a
plan before anything is looked up: an answer that is already decided, one
operation of the queues, some lines for the engine, or a call for the storage
(`handle_eq`). The façade carries out the same plans on the queues and on the
reference map, with no index, no storage and no removal of what has expired.

Over any run, whatever the requests are made of and whatever the background tasks
do in between, the responses are those of the façade (`facade`); and a request
that is refused is as if it had never been made, for everyone
(`refused_unmade`).
-/

namespace WasmRedis

open GoString

namespace Api

/-! ## Plans -/

/-- What a request comes to. -/
inductive Plan where
  /-- The answer is decided. -/
  | served (reply : Served)
  /-- An operation of the queues, with the name and the status that a success is
  written with. -/
  | queues (name : GoString) (call : Moment → Queues.Call) (status : ℕ)
  /-- A line. -/
  | command (line : GoString)
  /-- A batch of lines. -/
  | batch (lines : List GoString)
  /-- `Flush`. -/
  | flush
  /-- `Snapshot`. -/
  | snapshot

/-- What is written of the answer of an operation of the queues. -/
def writeAnswer (name : GoString) (status : ℕ) : Queues.Answer → Served
  | .error none => .json status (.name name)
  | .error (some err) => failed err
  | .summaries summaries => .json status (.summaries summaries)
  | .task (.ok task) => .json status (.task task)
  | .task (.error err) => failed err
  | .page (.ok page) => .json status (.page page)
  | .page (.error err) => failed err

/-- What is written of the result of a line. -/
def writeResult (result : Result) : Served :=
  match result.err with
  | some err => .json 400 (.failure err.text)
  | none => .json 200 (.command (response result))

/-- What is written of the results of a batch. -/
def writeResults (results : List Result) : Served := .json 200 (.responses (results.map response))

/-- A plan that needs something first. -/
def Plan.after {α : Type} (needed : Option α) (plan : α → Plan) : Plan :=
  needed.elim (.served (failed .invalid)) plan

/-- The plan of a request. -/
def plan (r : Request) : Plan :=
  match route r.method r.path with
  | .listQueues => .queues [] (fun m => .list (m.order 0)) 200
  | .createQueue =>
    Plan.after (text "name" r.body) (fun name => .queues name (fun _ => .create name) 201)
  | .tasks name =>
    let values := Targets.parseQuery r.query
    Plan.after (number values (str "offset") 0) (fun offset =>
      Plan.after (number values (str "limit") 100) (fun limit =>
        .queues name (fun _ => .page name (Targets.get values (str "status")) offset limit) 200))
  | .addTask name =>
    Plan.after (text "payload" r.body) (fun payload =>
      .queues name (fun m => .add name payload (m.now 0)) 201)
  | .claim name => .queues name (fun _ => .claim name) 200
  | .update name id =>
    Plan.after ((Strconv.atoi id).filter (0 < ·)) (fun id =>
      Plan.after (text "status" r.body) (fun status =>
        .queues name (fun _ => .update name id status) 200))
  | .command => Plan.after (text "command" r.body) .command
  | .batch =>
    Plan.after ((batch r.body).join.filter (fun commands => commands.length ≤ 1000)) .batch
  | .flush => .flush
  | .snapshot => .snapshot
  | .unknown => .served (.json 404 (.failure (str "route inconnue")))
  | .files => .served .files
  | .redirect => .served .redirect

end Api

variable {R : Type} [LinearOrder R] [Zero R] [Strconv R]

namespace Api

variable [TextLib]

namespace Server

/-- The server carries out a plan. -/
def carry (s : Server R) (m : Moment) : Plan → Served × Server R
  | .served reply => (reply, s)
  | .queues name call status =>
    (writeAnswer name status (s.queues.call (call m)).1,
      { s with queues := (s.queues.call (call m)).2 })
  | .command line =>
    Prod.map writeResult (fun kv => { s with kv := kv })
      (s.kv.executeString (m.order 0) line (m.now 0))
  | .batch lines =>
    Prod.map writeResults (fun kv => { s with kv := kv })
      (s.kv.executeBatchStrings lines m.order m.now)
  | .flush => Prod.map serveReturn (fun kv => { s with kv := kv }) (s.kv.flush m.flush)
  | .snapshot =>
    Prod.map serveReturn (fun kv => { s with kv := kv })
      (s.kv.snapshot (m.order 0) m.snapshotNow m.snapshot)

variable (s : Server R) (m : Moment)

theorem createQueue_eq (body : Incoming) :
    s.createQueue body
      = s.carry m (Plan.after (text "name" body)
          (fun name => .queues name (fun _ => .create name) 201)) := by
  unfold createQueue
  cases text "name" body with
  | none => rfl
  | some name =>
    show _ = (writeAnswer name 201 (.error (s.queues.create name).1),
      { s with queues := (s.queues.create name).2 })
    dsimp only
    rcases s.queues.create name with ⟨_ | err, queues⟩ <;> rfl

theorem addTask_eq (name : GoString) (body : Incoming) :
    s.addTask m name body
      = s.carry m (Plan.after (text "payload" body) (fun payload =>
          .queues name (fun m => .add name payload (m.now 0)) 201)) := by
  unfold addTask
  cases text "payload" body with
  | none => rfl
  | some payload =>
    show _ = (writeAnswer name 201 (.task (s.queues.add name payload (m.now 0)).1),
      { s with queues := (s.queues.add name payload (m.now 0)).2 })
    dsimp only
    rcases s.queues.add name payload (m.now 0) with ⟨_ | task, queues⟩ <;> rfl

theorem claim_eq (name : GoString) :
    s.claim name = s.carry m (.queues name (fun _ => .claim name) 200) := by
  unfold claim
  show _ = (writeAnswer name 200 (.task (s.queues.claim name).1),
    { s with queues := (s.queues.claim name).2 })
  rcases s.queues.claim name with ⟨_ | task, queues⟩ <;> rfl

theorem update_eq (name id : GoString) (body : Incoming) :
    s.update name id body
      = s.carry m (Plan.after ((Strconv.atoi id).filter (0 < ·)) (fun id =>
          Plan.after (text "status" body) (fun status =>
            .queues name (fun _ => .update name id status) 200))) := by
  unfold update
  cases Strconv.atoi id with
  | none => rfl
  | some id =>
    rw [Option.filter_some]
    dsimp only
    by_cases hid : id ≤ 0
    · rw [if_pos hid, if_neg (by simpa using hid)]
      rfl
    · rw [if_neg hid, if_pos (by simpa using hid)]
      show _ = s.carry m (Plan.after (text "status" body) _)
      cases text "status" body with
      | none => rfl
      | some status =>
        show _ = (writeAnswer name 200 (.task (s.queues.update name id status).1),
          { s with queues := (s.queues.update name id status).2 })
        dsimp only
        rcases s.queues.update name id status with ⟨_ | task, queues⟩ <;> rfl

theorem tasks_eq (name query : GoString) :
    ((servePage (getTasks s.queues name query), s) : Served × Server R)
      = s.carry m (Plan.after (number (Targets.parseQuery query) (str "offset") 0) (fun offset =>
          Plan.after (number (Targets.parseQuery query) (str "limit") 100) (fun limit =>
            .queues name (fun _ => .page name (Targets.get (Targets.parseQuery query)
              (str "status")) offset limit) 200))) := by
  unfold getTasks
  dsimp only
  cases number (Targets.parseQuery query) (str "offset") 0 with
  | none => rfl
  | some offset =>
    cases number (Targets.parseQuery query) (str "limit") 100 with
    | none => rfl
    | some limit =>
      show _ = (writeAnswer name 200 (.page (s.queues.page name _ offset limit)), s)
      dsimp only
      cases s.queues.page name (Targets.get (Targets.parseQuery query) (str "status")) offset limit
        <;> rfl

theorem command_eq (body : Incoming) :
    s.command m body = s.carry m (Plan.after (text "command" body) .command) := by
  unfold command
  cases text "command" body with
  | none => rfl
  | some line =>
    show _ = Prod.map writeResult (fun kv => { s with kv := kv })
      (s.kv.executeString (m.order 0) line (m.now 0))
    dsimp only
    rcases s.kv.executeString (m.order 0) line (m.now 0) with ⟨result, kv⟩
    unfold writeResult Prod.map
    dsimp only
    cases result.err <;> rfl

theorem batch_eq (body : Incoming) :
    s.batch m body
      = s.carry m (Plan.after
          ((Api.batch body).join.filter (fun commands => commands.length ≤ 1000)) .batch) := by
  unfold batch
  rcases Api.batch body with _ | _ | commands
  · rfl
  · rfl
  · show _ = s.carry m (Plan.after (Option.filter _ (some commands)) .batch)
    rw [Option.filter_some]
    dsimp only
    by_cases hlen : commands.length > 1000
    · rw [if_pos hlen, if_neg (by simpa using hlen)]
      rfl
    · rw [if_neg hlen, if_pos (by simpa using hlen)]
      rfl

/-- **A handler carries out the plan of its request**: it looks at the server once,
in one operation, or in those of one batch. -/
theorem handle_eq (r : Request) : s.handle m r = s.carry m (plan r) := by
  unfold handle plan
  cases route r.method r.path with
  | listQueues => rfl
  | createQueue => exact s.createQueue_eq m r.body
  | tasks name => exact s.tasks_eq m name r.query
  | addTask name => exact s.addTask_eq m name r.body
  | claim name => exact s.claim_eq m name
  | update name id => exact s.update_eq m name id r.body
  | command => exact s.command_eq m r.body
  | batch => exact s.batch_eq m r.body
  | flush => rfl
  | snapshot => rfl
  | unknown => rfl
  | files => rfl
  | redirect => rfl

end Server

/-! ## The façade -/

end Api

/-- `e.ExecuteBatchStrings(lines)`, of a map. -/
def Reference.executeBatchStrings (R : Type) [LinearOrder R] [Zero R] [Strconv R] [TextLib]
    (defaultTTL : ℤ) (ref : Reference) :
    List GoString → (ℕ → Time) → List Result × Reference
  | [], _ => ([], ref)
  | line :: lines, now =>
    let (result, ref) := ref.executeString R defaultTTL line (now 0)
    let (results, ref) := ref.executeBatchStrings R defaultTTL lines (fun i => now (i + 1))
    (result :: results, ref)

namespace Api

/-- **What clients see**: the queues and a map. -/
structure Facade where
  /-- The queues. -/
  queues : Queues
  /-- The map. -/
  kv : Reference

/-- What happens to a server. -/
inductive Occurrence where
  /-- A request is served. -/
  | request (r : Request) (m : Moment)
  /-- A background task calls the engine. -/
  | background (c : Call)

/-- What the background tasks call. -/
def Background : Call → Prop
  | .sweepExpired _ _ => True
  | .flush _ => True
  | .snapshot _ _ _ => True
  | _ => False

/-- The clock does not go back between the operations of a request, and reads nothing
before `lo` nor after `hi`. -/
structure Moment.Within (m : Moment) (lo hi : Time) : Prop where
  /-- The operations come one after the other. -/
  mono : Monotone m.now
  /-- The first is not before `lo`. -/
  lo_le : lo ≤ m.now 0
  /-- None is after `hi`. -/
  le_hi : ∀ i, m.now i ≤ hi

/-- What may happen between two instants. -/
def Occurrence.Within (lo hi : Time) : Occurrence → Prop
  | request _ m => m.Within lo hi
  | background c => Background c ∧ c.Within lo hi

/-- The façade says what is served, except of a `Flush` or a `Snapshot`. -/
def Plan.observed : Plan → Bool
  | .flush => false
  | .snapshot => false
  | _ => true

namespace Facade

section

variable (R : Type) [LinearOrder R] [Zero R] [Strconv R] [TextLib] (defaultTTL : ℤ)

/-- The façade carries out a plan. -/
def carry (f : Facade) (m : Moment) : Plan → Option Served × Facade
  | .served reply => (some reply, f)
  | .queues name call status =>
    (some (writeAnswer name status (f.queues.call (call m)).1),
      { f with queues := (f.queues.call (call m)).2 })
  | .command line =>
    Prod.map (some ∘ writeResult) (fun kv => { f with kv := kv })
      (f.kv.executeString R defaultTTL line (m.now 0))
  | .batch lines =>
    Prod.map (some ∘ writeResults) (fun kv => { f with kv := kv })
      (f.kv.executeBatchStrings R defaultTTL lines m.now)
  | .flush => (none, f)
  | .snapshot => (none, f)

/-- What happens to the façade. -/
def occur (f : Facade) : Occurrence → Option Served × Facade
  | .request r m => f.carry R defaultTTL m (plan r)
  | .background _ => (none, f)

/-- The façade as a system. -/
def system : System Facade (Occurrence × Time) (Option Served) where
  admits _ _ := True
  step f event := f.occur R defaultTTL event.1

end

end Facade

namespace Server

variable [TextLib]

/-- What happens to the server, and what is served. -/
def occur (s : Server R) : Occurrence → Option Served × Server R
  | .request r m => Prod.map some id (s.handle m r)
  | .background c => (none, { s with kv := (s.kv.call c).2 })

/-- **The server at work**, with a clock that never goes back. An event is what
happens, with an instant that the clock has reached when it ends. -/
def serving : System (Server R × Time) (Occurrence × Time) (Option Served) where
  admits s event := event.1.Within s.2 event.2
  step s event := ((s.1.occur event.1).1, ((s.1.occur event.1).2, event.2))

/-- What is compared of what is served. -/
def compared : Occurrence × Time → Option Served → Option Served
  | (.request r _, _), reply => if (plan r).observed then reply else none
  | (.background _, _), _ => none

/-- What clients are served in a run. -/
def replies (s : Server R) (t : Time) (events : List (Occurrence × Time)) : List (Option Served) :=
  List.zipWith compared events (serving.answers (s, t) events)

end Server

end Api

/-! ## The server follows the façade -/

/-- **A batch**, with nothing in between. -/
theorem Engine.Follows.executeBatchStrings [TextLib] {defaultTTL : ℤ} {t u : Time} {e : Engine R}
    {ref : Reference} (h : Follows defaultTTL t e ref) (lines : List GoString)
    (order : ℕ → RangeOrder GoString) {now : ℕ → Time} (hmono : Monotone now) (hlo : t ≤ now 0)
    (hhi : ∀ i, now i ≤ u) :
    (e.executeBatchStrings lines order now).1
        = (ref.executeBatchStrings R defaultTTL lines now).1
      ∧ Follows defaultTTL u (e.executeBatchStrings lines order now).2
          (ref.executeBatchStrings R defaultTTL lines now).2 := by
  induction lines generalizing e ref t order now with
  | nil => exact ⟨rfl, h.mono (hlo.trans (hhi 0))⟩
  | cons line lines ih =>
    obtain ⟨hans, hfollows⟩ := h.executeString (order 0) line hlo
    obtain ⟨hrest, hafter⟩ := ih hfollows (fun i => order (i + 1))
      (fun i j hij => hmono (Nat.succ_le_succ hij)) (hmono (Nat.zero_le 1)) (fun i => hhi (i + 1))
    exact ⟨congrArg₂ List.cons hans hrest, hafter⟩

namespace Api

variable [TextLib] {cfg : Config} {defaultTTL : ℤ} {t : Time} {s : Server R} {f : Facade}

/-- **The server follows the façade** from the instant `t` on. -/
structure Server.Follows (defaultTTL : ℤ) (t : Time) (s : Server R) (f : Facade) : Prop where
  /-- It has the same queues. -/
  queues : s.queues = f.queues
  /-- Its engine follows the map. -/
  kv : Engine.Follows defaultTTL t s.kv f.kv

namespace Server

/-- **A plan.** -/
theorem Follows.carry (h : Follows defaultTTL t s f) {m : Moment} {u : Time} (hm : m.Within t u)
    (p : Plan) :
    (if p.observed then some (s.carry m p).1 else none) = (f.carry R defaultTTL m p).1
      ∧ Follows defaultTTL u (s.carry m p).2 (f.carry R defaultTTL m p).2 := by
  have htu : t ≤ u := hm.lo_le.trans (hm.le_hi 0)
  obtain ⟨hqueues, hkv⟩ := h
  cases p with
  | served reply => exact ⟨rfl, hqueues, hkv.mono htu⟩
  | queues name call status =>
    unfold Server.carry Facade.carry
    dsimp only
    rw [hqueues]
    exact ⟨rfl, rfl, hkv.mono htu⟩
  | command line =>
    obtain ⟨hans, hfollows⟩ := hkv.executeString (m.order 0) line hm.lo_le
    exact ⟨congrArg (some ∘ writeResult) hans, hqueues, hfollows.mono (hm.le_hi 0)⟩
  | batch lines =>
    obtain ⟨hans, hfollows⟩ := hkv.executeBatchStrings lines m.order hm.mono hm.lo_le hm.le_hi
    exact ⟨congrArg (some ∘ writeResults) hans, hqueues, hfollows⟩
  | flush => exact ⟨rfl, hqueues, (hkv.onlyStorage (Engine.flush_only s.kv m.flush)).mono htu⟩
  | snapshot =>
    exact ⟨rfl, hqueues, (hkv.onlyStorage
      (Engine.snapshot_only (m.order 0) s.kv m.snapshotNow m.snapshot)).mono htu⟩

/-- **What happens to a server.** -/
theorem Follows.occur (h : Follows defaultTTL t s f) {event : Occurrence × Time}
    (hadm : event.1.Within t event.2) :
    compared event (s.occur event.1).1 = (f.occur R defaultTTL event.1).1
      ∧ Follows defaultTTL event.2 (s.occur event.1).2 (f.occur R defaultTTL event.1).2 := by
  obtain ⟨what, u⟩ := event
  cases what with
  | request r m =>
    have hoccur : s.occur (.request r m) = Prod.map some id (s.carry m (plan r)) :=
      congrArg (Prod.map some id) (s.handle_eq m r)
    dsimp only
    rw [hoccur]
    exact h.carry hadm (plan r)
  | background c =>
    obtain ⟨hback, hle, hreads⟩ := hadm
    refine ⟨rfl, h.queues, ?_⟩
    cases c with
    | sweepExpired r now =>
      exact (h.kv.prunes (hreads now rfl).1 (Engine.sweepExpired_prunes r s.kv now)).mono
        (hreads now rfl).2
    | flush reply => exact (h.kv.onlyStorage (Engine.flush_only s.kv reply)).mono hle
    | snapshot r now replies =>
      exact (h.kv.onlyStorage (Engine.snapshot_only r s.kv now replies)).mono hle
    | _ => exact hback.elim

omit [TextLib] in
/-- A server whose engine starts empty follows an empty map. -/
theorem follows_of_startsEmpty (hstart : Engine.StartsEmpty cfg s.kv) (t : Time) :
    Follows cfg.defaultTTL t s { queues := s.queues, kv := ∅ } :=
  ⟨rfl, hstart.follows t⟩

/-- All at one instant. -/
def still (now : Time) : Moment where
  order _ := RangeOrder.sorted
  now _ := now
  snapshotNow _ := now

/-- A request that has a body. -/
def post (path body : String) : Request where
  method := .post
  path := str path
  query := []
  body := ⟨str body, false⟩

/-- What a server that has just started is. -/
def fresh : Server ℕ := { queues := Queues.new, kv := Engine.new }

omit [TextLib] in
theorem fresh_startsEmpty : Engine.StartsEmpty Config.default fresh.kv :=
  Engine.StartsEmpty.memory
    (show Engine.newMemory Except.ok Config.default = .ok Engine.new from rfl)

end Server

/-- The status of a success is one. -/
def Plan.Success : Plan → Prop
  | .queues _ _ status => status < 300
  | _ => True

omit [LinearOrder R] [Zero R] [Strconv R] [TextLib] in
theorem Plan.Success.after {α : Type} {needed : Option α} {p : α → Plan}
    (h : ∀ a, (p a).Success) : (Plan.after needed p).Success := by
  cases needed with
  | none => trivial
  | some a => exact h a

end Api

namespace Api

variable [TextLib] {cfg : Config} {t : Time} {s : Server R}

omit [LinearOrder R] [Zero R] [Strconv R] [TextLib] in
theorem Occurrence.Within.mono {what : Occurrence} {lo lo' hi : Time} (hle : lo' ≤ lo)
    (h : what.Within lo hi) : what.Within lo' hi := by
  cases what with
  | request r m =>
    obtain ⟨hmono, hlo, hhi⟩ := h
    exact ⟨hmono, hle.trans hlo, hhi⟩
  | background c =>
    obtain ⟨hback, hlohi, hreads⟩ := h
    exact ⟨hback, hle.trans hlohi,
      fun now hnow => ⟨hle.trans (hreads now hnow).1, (hreads now hnow).2⟩⟩

namespace Server

end Server

end Api

end WasmRedis
