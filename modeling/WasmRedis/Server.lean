import WasmRedis.Api
import WasmRedis.Batches
import WasmRedis.Bodies
import WasmRedis.Routes

/-!
# The server

The handlers of the API: each reads what the request has to say, calls one
operation of the queues or of the engine, and writes what came of it. The clock,
the orders in which maps are visited and the replies of the storage are an
argument, as in the operations themselves.

A request is executed whole before the next; that this is what clients see,
though handlers run at the same time, is the matter of `Handlers`.
-/

namespace WasmRedis

open GoString

namespace Api

/-! ## Requests and replies -/

/-- A request. -/
structure Request where
  /-- `r.Method`. -/
  method : Method
  /-- `r.URL.EscapedPath()`, of a target that is a path or an address. -/
  path : GoString
  /-- `r.URL.RawQuery`. -/
  query : GoString
  /-- `r.Body`. -/
  body : Incoming

/-- What the environment decides while a request is handled. -/
structure Moment where
  /-- The orders in which maps are visited, one for each operation. -/
  order : ℕ → RangeOrder GoString
  /-- The readings of the clock, one for each operation. -/
  now : ℕ → Time
  /-- The reply of the storage to a `Flush`. -/
  flush : Reply ℕ := .ok
  /-- The readings of the clock in a `Snapshot`, one for each key. -/
  snapshotNow : GoString → Time
  /-- The replies of the storage to a `Snapshot`. -/
  snapshot : Engine.SnapshotReplies := {}

/-- `commandResponse`. -/
structure CommandResponse where
  /-- The value. -/
  value : GoString
  /-- Whether it is a number. -/
  isNumber : Bool
  /-- The entries of a GET WHERE. -/
  entries : List Entry
  /-- The text of the error; empty if there is none. -/
  error : GoString
  deriving DecidableEq

/-- What is written in a response of the API. -/
inductive Content where
  /-- The summaries of the queues. -/
  | summaries (summaries : List QueueSummary)
  /-- `{"name": …}`. -/
  | name (name : GoString)
  /-- A page of tasks. -/
  | page (page : TaskPage)
  /-- A task. -/
  | task (task : Task)
  /-- The response to a command. -/
  | command (response : CommandResponse)
  /-- The responses to a batch. -/
  | responses (responses : List CommandResponse)
  /-- `{"value": "OK"}`. -/
  | done
  /-- `{"error": …}`. -/
  | failure (text : GoString)
  deriving DecidableEq

/-- How a request ends. -/
inductive Served where
  /-- A response of the API. -/
  | json (status : ℕ) (content : Content)
  /-- A redirection. -/
  | redirect
  /-- The file server has it. -/
  | files
  /-- The process stopped. -/
  | stopped
  deriving DecidableEq

/-- The response of `fail(w, err)`. -/
def failed (err : Err) : Served := .json (fail err).status (.failure err.text)

/-- `response(result)`. -/
def response (result : Result) : CommandResponse where
  value := result.value
  isNumber := result.isNumber
  entries := result.entries
  error := (result.err.map Err.text).getD []

/-- What is written of a page, or of the error there is instead. -/
def servePage (r : Response Body) : Served :=
  match r.json with
  | .ok (.page page) => .json r.status (.page page)
  | .ok (.failure text) => .json r.status (.failure text)
  | .error text => .json r.status (.failure text)

/-! ## The handlers -/

/-- The server. -/
structure Server (R : Type) where
  /-- The queues. -/
  queues : Queues
  /-- The engine. -/
  kv : Engine R

end Api

variable {R : Type} [LinearOrder R] [Zero R] [Strconv R]

/-- `e.ExecuteBatchStrings(lines)`, with nothing in between. -/
def Engine.executeBatchStrings [TextLib] (e : Engine R) :
    List GoString → (ℕ → RangeOrder GoString) → (ℕ → Time) → List Result × Engine R
  | [], _, _ => ([], e)
  | line :: lines, order, now =>
    let (result, e) := e.executeString (order 0) line (now 0)
    let (results, e) :=
      e.executeBatchStrings lines (fun i => order (i + 1)) (fun i => now (i + 1))
    (result :: results, e)

namespace Api

/-- What is written of a `Flush` or a `Snapshot`. -/
def serveReturn : Return → Served
  | .nil => .json 200 .done
  | .err err => .json 500 (.failure err.text)
  | .stopped => .stopped

namespace Server

variable (s : Server R) (m : Moment)

omit [LinearOrder R] [Zero R] [Strconv R] in
/-- `POST /api/queues`. -/
def createQueue (body : Incoming) : Served × Server R :=
  match text "name" body with
  | none => (failed .invalid, s)
  | some name =>
    match s.queues.create name with
    | (some err, queues) => (failed err, { s with queues := queues })
    | (none, queues) => (.json 201 (.name name), { s with queues := queues })

omit [LinearOrder R] [Zero R] [Strconv R] in
/-- `POST /api/queues/{name}/tasks`. -/
def addTask (name : GoString) (body : Incoming) : Served × Server R :=
  match text "payload" body with
  | none => (failed .invalid, s)
  | some payload =>
    match s.queues.add name payload (m.now 0) with
    | (.error err, queues) => (failed err, { s with queues := queues })
    | (.ok task, queues) => (.json 201 (.task task), { s with queues := queues })

omit [LinearOrder R] [Zero R] [Strconv R] in
/-- `POST /api/queues/{name}/claim`. -/
def claim (name : GoString) : Served × Server R :=
  match s.queues.claim name with
  | (.error err, queues) => (failed err, { s with queues := queues })
  | (.ok task, queues) => (.json 200 (.task task), { s with queues := queues })

omit [LinearOrder R] [Zero R] [Strconv R] in
/-- `PATCH /api/queues/{name}/tasks/{id}`. -/
def update (name id : GoString) (body : Incoming) : Served × Server R :=
  match Strconv.atoi id with
  | none => (failed .invalid, s)
  | some id =>
    if id ≤ 0 then (failed .invalid, s)
    else
      match text "status" body with
      | none => (failed .invalid, s)
      | some status =>
        match s.queues.update name id status with
        | (.error err, queues) => (failed err, { s with queues := queues })
        | (.ok task, queues) => (.json 200 (.task task), { s with queues := queues })

variable [TextLib]

/-- `POST /api/command`. -/
def command (body : Incoming) : Served × Server R :=
  match text "command" body with
  | none => (failed .invalid, s)
  | some command =>
    let (result, kv) := s.kv.executeString (m.order 0) command (m.now 0)
    match result.err with
    | some err => (.json 400 (.failure err.text), { s with kv := kv })
    | none => (.json 200 (.command (response result)), { s with kv := kv })

/-- `POST /api/batch`. -/
def batch (body : Incoming) : Served × Server R :=
  match Api.batch body with
  | none => (failed .invalid, s)
  | some none => (failed .invalid, s)
  | some (some commands) =>
    if commands.length > 1000 then (failed .invalid, s)
    else
      let (results, kv) := s.kv.executeBatchStrings commands m.order m.now
      (.json 200 (.responses (results.map response)), { s with kv := kv })

/-- The handler of a request. -/
def handle (r : Request) : Served × Server R :=
  match route r.method r.path with
  | .listQueues => (.json 200 (.summaries (s.queues.list (m.order 0))), s)
  | .createQueue => s.createQueue r.body
  | .tasks name => (servePage (getTasks s.queues name r.query), s)
  | .addTask name => s.addTask m name r.body
  | .claim name => s.claim name
  | .update name id => s.update name id r.body
  | .command => s.command m r.body
  | .batch => s.batch m r.body
  | .flush => Prod.map serveReturn (fun kv => { s with kv := kv }) (s.kv.flush m.flush)
  | .snapshot =>
    Prod.map serveReturn (fun kv => { s with kv := kv })
      (s.kv.snapshot (m.order 0) m.snapshotNow m.snapshot)
  | .unknown => (.json 404 (.failure (str "route inconnue")), s)
  | .files => (.files, s)
  | .redirect => (.redirect, s)

end Server

end Api

end WasmRedis
