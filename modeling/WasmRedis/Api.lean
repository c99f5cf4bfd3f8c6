import WasmRedis.Foundation.Targets
import WasmRedis.Queues
import WasmRedis.Requests

/-!
# The route of the pages

`GET /api/queues/{name}/tasks` reads its parameters from the query, asks `Page` for them
and writes what it gives, or the error with the status that stands for it.
-/

namespace WasmRedis

open GoString

namespace Api

/-- The body of a response about tasks. -/
inductive Body where
  /-- A page. -/
  | page (page : TaskPage)
  /-- `{"error": …}`. -/
  | failure (text : GoString)
  deriving DecidableEq

/-- `body.error`. -/
def Body.error : Body → GoString
  | page _ => []
  | failure text => text

/-- `fail(w, err)`. -/
def fail (err : Err) : Response Body where
  status :=
    if Err.is .conflict err then 409
    else if Err.is .notFound err then 404
    else 400
  json := .ok (.failure err.text)

/-- `number(r, key, fallback)`; `none` is an error. -/
def number (values : List (GoString × GoString)) (key : GoString) (fallback : ℤ) : Option ℤ :=
  let value := Targets.get values key
  if value = [] then some fallback else Strconv.atoi value

/-- What is written of a page, or of the error there is instead. -/
def write : Except Err TaskPage → Response Body
  | .error err => fail err
  | .ok page => { status := 200, json := .ok (.page page) }

/-- The handler of `GET /api/queues/{name}/tasks`. -/
def getTasks (q : Queues) (name query : GoString) : Response Body :=
  let values := Targets.parseQuery query
  match number values (str "offset") 0 with
  | none => fail .invalid
  | some offset =>
    match number values (str "limit") 100 with
    | none => fail .invalid
    | some limit =>
      write (q.page name (Targets.get values (str "status")) offset limit)

/-- A `GET` of a target of that route; `none` for the targets of the others. -/
def get (q : Queues) (target : GoString) : Option (Response Body) :=
  match Targets.segments (Targets.cut 63 target).1 with
  | some [root, api, queues, name, tasks] =>
    if root = [] ∧ api = str "api" ∧ queues = str "queues" ∧ name ≠ [] ∧ tasks = str "tasks" then
      some (getTasks q name (Targets.cut 63 target).2)
    else none
  | _ => none

/-- An error is not a success. -/
theorem fail_ok (err : Err) : (fail err).ok = false := by
  unfold fail Response.ok
  dsimp only
  split_ifs <;> rfl

/-- A page that comes is the one there was. -/
theorem page_of_write {result : Except Err TaskPage} {page : TaskPage}
    (h : request Body.error (write result) = .ok (.page page)) : result = .ok page := by
  obtain ⟨hok, hjson⟩ := request_ok_iff.mp h
  cases result with
  | error err =>
    have hfail : (write (.error err)).ok = false := fail_ok err
    rw [hfail] at hok
    cases hok
  | ok page' =>
    cases hjson
    rfl

end Api

end WasmRedis
