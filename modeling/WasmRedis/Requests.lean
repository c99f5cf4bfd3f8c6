import WasmRedis.Foundation.Strconv

/-!
# Requests of the dashboard

The dashboard reaches the server through one function, `request`, around `fetch`. A
response gives the JSON it carries, or the error that reading it raises. What `request`
makes of it is that JSON, where the status is a success, and an error to be thrown
otherwise: the one the server wrote, if it wrote one.
-/

namespace WasmRedis

open GoString

/-- A response, as `fetch` gives it. -/
structure Response (D : Type) where
  /-- `response.status`. -/
  status : ℕ
  /-- What `response.json()` resolves to, or the message it rejects with. -/
  json : Except GoString D
  deriving DecidableEq

variable {D : Type}

/-- `response.ok`. -/
def Response.ok (response : Response D) : Bool :=
  decide (200 ≤ response.status ∧ response.status ≤ 299)

section

-- `body.error`; the empty text if the body has none
variable (error : D → GoString)

/-- The message of the error that is thrown for a response that is not a success. -/
def failure (response : Response D) : GoString :=
  let fallback := str "Erreur HTTP " ++ Strconv.decimal response.status
  match response.json with
  | .error _ => fallback
  | .ok body => if error body = [] then fallback else error body

/-- `request(path)`, once the response has come. -/
def request (response : Response D) : Except GoString D :=
  if !response.ok then .error (failure error response) else response.json

end

theorem request_ok_iff {error : D → GoString} {response : Response D} {data : D} :
    request error response = .ok data ↔ response.ok = true ∧ response.json = .ok data := by
  unfold request
  cases response.ok with
  | false => simp
  | true => simp

end WasmRedis
