import WasmRedis.Engine
import WasmRedis.Foundation.Runs

/-!
# Task queues

`Queues` holds named queues of tasks. A task is pending, running, completed or
failed: `Claim` starts the first pending task of a queue, `Update` ends a
running task or puts a failed one back. Each queue counts its tasks by status,
and keeps the counts up to date call by call; `List` and `Page` read them.

Every operation holds the mutex of `Queues` from end to end. The calls of any
number of clients are therefore a list of calls, in the order in which they
took the mutex.
-/

namespace WasmRedis

open GoString

/-! ## Tasks -/

/-- The status of a task. -/
inductive Status where
  /-- `Pending`. -/
  | pending
  /-- `Running`. -/
  | running
  /-- `Completed`. -/
  | completed
  /-- `Failed`. -/
  | failed
  deriving DecidableEq

namespace Status

/-- The text of a status. -/
def text : Status → GoString
  | pending => str "pending"
  | running => str "running"
  | completed => str "completed"
  | failed => str "failed"

/-- The status a text names, if it names one. -/
def ofText (status : GoString) : Option Status :=
  [pending, running, completed, failed].find? (fun s => status = s.text)

end Status

/-- `ValidStatus(status)`. -/
def validStatus (status : GoString) : Bool := (Status.ofText status).isSome

/-- A task. -/
structure Task where
  /-- The number of the task. -/
  id : ℤ
  /-- What is to be done. -/
  payload : GoString
  /-- How far it is. -/
  status : Status
  /-- When it was added. -/
  createdAt : Time
  deriving DecidableEq

/-- A queue. -/
structure Queue where
  /-- The tasks, in the order in which they were added. -/
  tasks : List Task
  /-- How many of them have each status. -/
  counts : GoMap Status ℤ
  deriving DecidableEq

/-- The queues. -/
structure Queues where
  /-- The queues, by name. -/
  queues : GoMap GoString Queue
  /-- The number of the last task added to any queue. It is an `int` in the source, and
  fewer than `2 ^ 63` tasks are supposed to be added. -/
  nextID : ℤ
  deriving DecidableEq

/-- What `List` says of a queue. -/
structure QueueSummary where
  /-- Its name. -/
  name : GoString
  /-- The number of its tasks. -/
  total : ℤ
  /-- How many of them have each status. -/
  counts : GoMap Status ℤ
  deriving DecidableEq

/-- A page of tasks. -/
structure TaskPage where
  /-- The tasks of the page. -/
  items : List Task
  /-- The number of tasks of all the pages. -/
  total : ℤ
  /-- Where the page starts. -/
  offset : ℤ
  deriving DecidableEq

/-- `counts[status] += n`; a status that is not in the map counts as `0`. -/
def bump (status : Status) (n : ℤ) (counts : GoMap Status ℤ) : GoMap Status ℤ :=
  counts.insert status ((counts.lookup status).getD 0 + n)

namespace Queues

/-- `NewQueues()`. -/
def new : Queues := { queues := ∅, nextID := 0 }

/-! ## Create and List -/

/-- The cutset of a name. -/
def nameCharacters : GoString :=
  str "abcdefghijklmnopqrstuvwxyzABCDEFGHIJKLMNOPQRSTUVWXYZ0123456789-_"

/-- The queue `Create` makes. -/
def emptyQueue : Queue where
  tasks := []
  counts := (((Finmap.insert Status.pending (0 : ℤ) ∅).insert Status.running 0).insert
    Status.completed 0).insert Status.failed 0

/-- `q.Create(name)`. -/
def create (q : Queues) (name : GoString) : Option Err × Queues :=
  if name.length = 0 ∨ name.length > 64 ∨ trim name nameCharacters ≠ [] then
    (some (.detail .invalid (str "nom de 1 à 64 lettres, chiffres, tirets ou underscores")), q)
  else
    match q.queues.lookup name with
    | some _ => (some (.detail .conflict (str "cette file existe déjà")), q)
    | none => (none, { q with queues := q.queues.insert name emptyQueue })

/-- `q.List()`. The copy it makes of the counts is a value of its own. -/
def list (r : RangeOrder GoString) (q : Queues) : List QueueSummary :=
  (GoMap.rangeFold r q.queues [] (fun result name entry =>
    result ++ [{ name := name, total := entry.tasks.length, counts := entry.counts }])).insertionSort
    (fun a b => a.name ≤ b.name)

/-! ## Add -/

/-- `q.Add(name, payload)`. -/
def add (q : Queues) (name payload : GoString) (now : Time) : Except Err Task × Queues :=
  if isBlank payload ∨ payload.length > 4096 then
    (.error (.detail .invalid (str "contenu requis, 4096 octets maximum")), q)
  else
    match q.queues.lookup name with
    | none => (.error .notFound, q)
    | some entry =>
      let nextID := q.nextID + 1
      let task : Task := { id := nextID, payload := payload, status := .pending, createdAt := now }
      (.ok task,
        { queues := q.queues.insert name ⟨entry.tasks ++ [task], bump .pending 1 entry.counts⟩
          nextID := nextID })

/-! ## Page -/

/-- The loop of `Page` where no status is asked for, over the tasks from the
offset on. -/
def pageAll (limit : ℤ) : List Task → List Task → List Task
  | [], items => items
  | task :: tasks, items =>
    if items.length < limit then pageAll limit tasks (items ++ [task]) else items

/-- The loop of `Page` over the tasks of one status. -/
def pageStatus (status : Status) (offset limit : ℤ) : List Task → List Task → ℤ → List Task
  | [], items, _ => items
  | task :: tasks, items, seen =>
    if task.status ≠ status then pageStatus status offset limit tasks items seen
    else
      let items := if seen ≥ offset then items ++ [task] else items
      if items.length = limit then items
      else pageStatus status offset limit tasks items (seen + 1)

/-- `q.Page(name, status, offset, limit)`. -/
def page (q : Queues) (name status : GoString) (offset limit : ℤ) : Except Err TaskPage :=
  if offset < 0 ∨ limit < 1 ∨ limit > 200 ∨ status ≠ [] ∧ !validStatus status then
    .error .invalid
  else
    match q.queues.lookup name with
    | none => .error .notFound
    | some entry =>
      match Status.ofText status with
      | none =>
        .ok { items := pageAll limit (entry.tasks.drop offset.toNat) []
              total := entry.tasks.length
              offset := offset }
      | some status =>
        .ok { items := pageStatus status offset limit entry.tasks [] 0
              total := (entry.counts.lookup status).getD 0
              offset := offset }

/-! ## Claim and Update -/

/-- The loop of `Claim`: the first pending task is started. -/
def claimTask : List Task → Option (Task × List Task)
  | [] => none
  | task :: tasks =>
    if task.status = .pending then
      let task := { task with status := .running }
      some (task, task :: tasks)
    else
      match claimTask tasks with
      | none => none
      | some (claimed, tasks) => some (claimed, task :: tasks)

/-- `q.Claim(name)`. -/
def claim (q : Queues) (name : GoString) : Except Err Task × Queues :=
  match q.queues.lookup name with
  | none => (.error .notFound, q)
  | some entry =>
    match claimTask entry.tasks with
    | none => (.error (.detail .conflict (str "aucune tâche en attente")), q)
    | some (task, tasks) =>
      (.ok task,
        { q with queues :=
            q.queues.insert name ⟨tasks, bump .running 1 (bump .pending (-1) entry.counts)⟩ })

/-- The loop of `Update`: the first task with the number is moved from its
current status, if it can be. -/
def updateTask (id : ℤ) (status : Status) : List Task → Except Err (Status × Task × List Task)
  | [] => .error .notFound
  | task :: tasks =>
    if task.id ≠ id then
      match updateTask id status tasks with
      | .error err => .error err
      | .ok (current, updated, tasks) => .ok (current, updated, task :: tasks)
    else
      let current := task.status
      if ¬ (current = .running ∧ (status = .completed ∨ status = .failed)
          ∨ current = .failed ∧ status = .pending) then .error .conflict
      else
        let task := { task with status := status }
        .ok (current, task, task :: tasks)

/-- `q.Update(name, id, status)`. -/
def update (q : Queues) (name : GoString) (id : ℤ) (status : GoString) :
    Except Err Task × Queues :=
  match Status.ofText status with
  | none => (.error .invalid, q)
  | some status =>
    match q.queues.lookup name with
    | none => (.error .notFound, q)
    | some entry =>
      match updateTask id status entry.tasks with
      | .error err => (.error err, q)
      | .ok (current, task, tasks) =>
        (.ok task,
          { q with queues :=
              q.queues.insert name ⟨tasks, bump status 1 (bump current (-1) entry.counts)⟩ })

/-! ## Calls -/

/-- A call of an operation. -/
inductive Call where
  /-- `Create`. -/
  | create (name : GoString)
  /-- `List`. -/
  | list (r : RangeOrder GoString)
  /-- `Add`. -/
  | add (name payload : GoString) (now : Time)
  /-- `Page`. -/
  | page (name status : GoString) (offset limit : ℤ)
  /-- `Claim`. -/
  | claim (name : GoString)
  /-- `Update`. -/
  | update (name : GoString) (id : ℤ) (status : GoString)

/-- What a call returns. -/
inductive Answer where
  /-- The error of `Create`; `none` is nil. -/
  | error (err : Option Err)
  /-- The summaries of `List`. -/
  | summaries (result : List QueueSummary)
  /-- The task and the error of `Add`, `Claim` or `Update`. -/
  | task (result : Except Err Task)
  /-- The page and the error of `Page`. -/
  | page (result : Except Err TaskPage)
  deriving DecidableEq

/-- The call returned an error. -/
def Answer.Failed : Answer → Prop
  | error err => err ≠ none
  | summaries _ => False
  | task result => ∃ err, result = .error err
  | page result => ∃ err, result = .error err

/-- The queue a call is about. -/
def Call.queue : Call → Option GoString
  | create name => some name
  | list _ => none
  | add name _ _ => some name
  | page name _ _ _ => some name
  | claim name => some name
  | update name _ _ => some name

/-- A call is executed. -/
def call (q : Queues) : Call → Answer × Queues
  | .create name => Prod.map .error id (q.create name)
  | .list r => (.summaries (q.list r), q)
  | .add name payload now => Prod.map .task id (q.add name payload now)
  | .page name status offset limit => (.page (q.page name status offset limit), q)
  | .claim name => Prod.map .task id (q.claim name)
  | .update name number status => Prod.map .task id (q.update name number status)

/-- The queues as a system that answers calls. -/
def system : System Queues Call Answer where
  admits _ _ := True
  step := call

theorem admits_system (q : Queues) (calls : List Call) : system.Admits q calls :=
  System.admits_of_forall (fun _ _ => trivial) q calls

end Queues

end WasmRedis
