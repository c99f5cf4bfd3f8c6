import WasmRedis.Foundation.Stringify
import WasmRedis.Serving
import WasmRedis.TaskList

/-!
# What the dashboard asks

The dashboard sends what a user does as a request: the name of a queue is escaped
in the path, and what was typed stands in the body as JSON. On the other side the
path is cleaned, split and unescaped, and the body is decoded by other code, in
another language, within 16384 bytes.

`understood` says that nothing is lost between the two: for every name that a queue
can have and every text that fits in the field where it is typed, the server carries
out the operation that was meant, on that queue and with that text, if the body has
these 16384 bytes or fewer. It has, if no control character was typed; six bytes are
written for most of those, and some thousands of them make a body that is refused.
-/

namespace WasmRedis

open GoString

namespace Dashboard

open Api

/-! ## Requests -/

/-- What a user does. -/
inductive Action where
  /-- Creates a queue, by a name that has been trimmed. -/
  | createQueue (name : GoString)
  /-- Adds a task. -/
  | addTask (queue payload : GoString)
  /-- Starts the next task. -/
  | claim (queue : GoString)
  /-- Ends a task, or tries it again. -/
  | update (queue : GoString) (id : ℕ) (status : Status)

/-- The body of a request that has none. -/
def noBody : Incoming := { bytes := [], fails := false }

/-- `JSON.stringify(body)`, of an object that has one member. -/
def jsonBody (field : String) (text : GoString) : Incoming :=
  { bytes := Json.stringifyMember (str field) text, fails := false }

/-- The request of `mutate(path, method, body)`. -/
def mutate (path : GoString) (method : Method) (body : Incoming) : Request :=
  { method := method, path := path, query := [], body := body }

/-- What an action sends. -/
def Action.request : Action → Request
  | createQueue name => mutate (str "/api/queues") .post (jsonBody "name" name)
  | addTask queue payload =>
    mutate (QueueView.base queue ++ str "/tasks") .post (jsonBody "payload" payload)
  | claim queue => mutate (QueueView.base queue ++ str "/claim") .post noBody
  | update queue id status =>
    mutate (QueueView.base queue ++ str "/tasks/" ++ Strconv.decimal id) .patch
      (jsonBody "status" status.text)

/-- What an action means. -/
def Action.plan : Action → Plan
  | createQueue name => .queues name (fun _ => .create name) 201
  | addTask queue payload => .queues queue (fun m => .add queue payload (m.now 0)) 201
  | claim queue => .queues queue (fun _ => .claim queue) 200
  | update queue id status => .queues queue (fun _ => .update queue id status.text) 200

/-- A name that a queue can have. -/
def IsName (name : GoString) : Prop :=
  name ≠ [] ∧ name.length ≤ 64 ∧ trim name Queues.nameCharacters = []

/-- What a field takes: a text of at most so many units. -/
def Fits (maxLength : ℕ) (text : GoString) : Prop :=
  IsUTF8 text ∧ Json.utf16Length text ≤ maxLength

/-- What is typed for an action. -/
def Action.typed : Action → GoString
  | createQueue name => name
  | addTask _ payload => payload
  | _ => []

/-- What the dashboard can ask: the fields have their lengths, the queues have names, and
the numbers of tasks are those that the browser has exactly. -/
def Action.Possible : Action → Prop
  | createQueue name => Fits 64 name
  | addTask queue payload => IsName queue ∧ Fits 4096 payload
  | claim queue => IsName queue
  | update queue id _ => IsName queue ∧ 0 < id ∧ id ≤ 2 ^ 53

/-! ## Paths -/

/-- The characters of a name are not escaped. -/
theorem IsName.plain {name : GoString} (h : IsName name) : Targets.Plain name := by
  have hkept : Queues.nameCharacters.all Targets.isKept = true := by decide
  intro b hb
  have hmem := (trim_eq_nil_iff name Queues.nameCharacters).mp h.2.2 b hb
  exact List.all_eq_true.mp hkept b hmem

/-- A name is a segment of a path. -/
theorem IsName.segment {name : GoString} (h : IsName name) : Segment name where
  ne_nil := h.1
  no_slash := h.plain.not_mem (by decide)
  ne_dot := by
    rintro rfl
    exact absurd h.2.2 (by decide)
  ne_dots := by
    rintro rfl
    exact absurd h.2.2 (by decide)

/-- The route under the base of a queue. -/
theorem route_base {method : Method} {name : GoString} (h : IsName name) {rest : List GoString}
    (hrest : ∀ segment ∈ rest, Segment segment ∧ Targets.Plain segment) :
    route method (QueueView.base name ++ pathOf rest) = routeQueues method (name :: rest) := by
  have hplain : ∀ s, Targets.Plain s → pathUnescape s = s := by
    intro s hs
    unfold pathUnescape
    rw [Targets.unescape_plain false hs]
    rfl
  have hpath : QueueView.base name ++ pathOf rest
      = pathOf (str "api" :: str "queues" :: name :: rest) := by
    have hhead : str "/api/queues/" = 47 :: (str "api" ++ 47 :: (str "queues" ++ [47])) := by
      decide
    unfold QueueView.base pathOf
    rw [Targets.encodeURIComponent_plain h.plain, hhead]
    simp
  have hsegments : ∀ segment ∈ str "queues" :: name :: rest, Segment segment :=
    List.forall_mem_cons.mpr ⟨⟨by decide, by decide, by decide, by decide⟩,
      List.forall_mem_cons.mpr ⟨h.segment, fun s hs => (hrest s hs).1⟩⟩
  rw [hpath, route_pathOf (List.cons_ne_nil _ _) hsegments, List.map_cons, List.map_cons,
    hplain name h.plain, List.map_congr_left (fun s hs => hplain s (hrest s hs).2), List.map_id',
    hplain _ (by decide)]
  rfl

/-! ## Bodies -/

/-- **A text arrives**, if the server reads its body to the end. -/
theorem text_jsonBody {field : String} {text : GoString} (h : IsUTF8 text) :
    Api.text field (jsonBody field text)
      = if (jsonBody field text).bytes.length ≤ maxBody then some text else none := by
  by_cases hlength : (jsonBody field text).bytes.length ≤ maxBody
  · rw [if_pos hlength]
    refine text_eq_some_iff.mpr ⟨rfl, hlength, Or.inr ⟨[(str field, .string text)],
      Json.parse_stringifyMember (isUTF8_str field) h, fun member hmem => ?_, rfl⟩⟩
    rw [List.mem_singleton.mp hmem]
    exact ⟨decide_eq_true rfl, Or.inr ⟨text, rfl⟩⟩
  · rw [if_neg hlength]
    exact if_pos (Or.inr (not_le.mp hlength))

/-- The body of a text without control characters is read to the end. -/
theorem length_jsonBody {field : String} {text : GoString}
    (hfield : (Json.stringify (str field)).length ≤ 64) (htyped : Json.Typed text)
    (hunits : Json.utf16Length text ≤ 4096) :
    (jsonBody field text).bytes.length ≤ maxBody := by
  have hlength := Json.length_stringify htyped
  have hmax : maxBody = 16384 := rfl
  show (Json.stringifyMember (str field) text).length ≤ maxBody
  unfold Json.stringifyMember
  simp only [List.length_cons, List.length_append, List.length_nil]
  omega

/-- The name of a status has no control characters. -/
theorem typed_status (status : Status) : Json.Typed status.text := by
  have hprintable : ((runes status.text).all fun c => 32 ≤ c.toNat) = true := by
    cases status <;> rfl
  refine ⟨?_, fun c hc => Or.inl ?_⟩
  · cases status <;> exact isUTF8_str _
  · exact of_decide_eq_true (List.all_eq_true.mp hprintable c hc)

/-- The body of an `update` is read to the end. -/
theorem length_status (status : Status) :
    (jsonBody "status" status.text).bytes.length ≤ maxBody :=
  length_jsonBody (by decide) (typed_status status) (by cases status <;> decide +kernel)

/-! ## The operations -/

/-- A number is a segment of a path. -/
theorem segment_decimal (n : ℕ) :
    Segment (Strconv.decimal n) ∧ Targets.Plain (Strconv.decimal n) := by
  have hdigit : ∀ b ∈ Strconv.decimal n, 48 ≤ b ∧ b ≤ 57 := fun _ hb =>
    Strconv.isDigit_of_mem_decimal hb
  have hkept : Targets.Plain (Strconv.decimal n) := by
    intro b hb
    unfold Targets.isKept
    rw [decide_eq_true (hdigit b hb), Bool.true_or, Bool.true_or, Bool.true_or]
  have hdot : ∀ s : GoString, 46 ∈ s → Strconv.decimal n ≠ s := by
    rintro s hs rfl
    exact absurd (hdigit 46 hs).1 (by decide)
  exact ⟨⟨Strconv.decimal_ne_nil n, hkept.not_mem (by decide), hdot _ (by decide),
    hdot _ (by decide)⟩, hkept⟩

/-- A segment is taken by a wildcard. -/
theorem wildcard_of_segment {s : GoString} (h : Segment s) : wildcard s := by
  rintro rfl
  exact h.no_slash (by decide)

/-- The routes that a queue has for the dashboard. -/
theorem route_queue {queue : GoString} (h : IsName queue) (id : ℕ) :
    route .post (QueueView.base queue ++ str "/tasks") = .addTask queue
      ∧ route .post (QueueView.base queue ++ str "/claim") = .claim queue
      ∧ route .patch (QueueView.base queue ++ str "/tasks/" ++ Strconv.decimal id)
        = .update queue (Strconv.decimal id) := by
  have hqueue := wildcard_of_segment h.segment
  have hword : ∀ word ∈ [str "tasks", str "claim"], Segment word ∧ Targets.Plain word := by
    intro word hmem
    simp only [List.mem_cons, List.not_mem_nil, or_false] at hmem
    rcases hmem with rfl | rfl <;> exact ⟨⟨by decide, by decide, by decide, by decide⟩, by decide⟩
  have htasks := hword (str "tasks") (by simp)
  have hclaim := hword (str "claim") (by simp)
  have hid := segment_decimal id
  refine ⟨?_, ?_, ?_⟩
  · rw [show str "/tasks" = pathOf [str "tasks"] by decide,
      route_base h (List.forall_mem_singleton.mpr htasks)]
    unfold routeQueues
    dsimp only
    rw [if_neg (not_not.mpr hqueue), if_pos rfl]
  · rw [show str "/claim" = pathOf [str "claim"] by decide,
      route_base h (List.forall_mem_singleton.mpr hclaim)]
    unfold routeQueues
    dsimp only
    rw [if_neg (not_not.mpr hqueue), if_neg (by decide), if_pos ⟨rfl, rfl⟩]
  · have hpath : str "/tasks/" ++ Strconv.decimal id
        = pathOf [str "tasks", Strconv.decimal id] := by
      rw [show str "/tasks/" = 47 :: (str "tasks" ++ [47]) by decide]
      simp [pathOf]
    rw [List.append_assoc, hpath,
      route_base h (List.forall_mem_cons.mpr ⟨htasks, List.forall_mem_singleton.mpr hid⟩)]
    unfold routeQueues
    dsimp only
    rw [if_pos ⟨hqueue, rfl, wildcard_of_segment hid.1, rfl⟩]

/-- What comes of a text, where the body may be too long. -/
theorem after_text {needed : Prop} [Decidable needed] (text : GoString) (p : GoString → Plan) :
    Plan.after (if needed then some text else none) p
      = if needed then p text else .served (failed .invalid) := by
  by_cases h : needed
  · rw [if_pos h, if_pos h]
    rfl
  · rw [if_neg h, if_neg h]
    rfl

/-- A request of the dashboard comes to what was meant, if its body is read to the end. -/
theorem plan_request {a : Action} (h : a.Possible) :
    Api.plan a.request
      = if a.request.body.bytes.length ≤ maxBody then a.plan else .served (failed .invalid) := by
  cases a with
  | createQueue name =>
    have hroute : route (Action.createQueue name).request.method
        (Action.createQueue name).request.path = .createQueue := by
      show route .post (str "/api/queues") = .createQueue
      decide +kernel
    unfold Api.plan
    rw [hroute]
    show Plan.after (Api.text "name" (jsonBody "name" name)) _ = _
    rw [text_jsonBody h.1, after_text]
    rfl
  | addTask queue payload =>
    obtain ⟨hname, hpayload⟩ := h
    have hroute : route (Action.addTask queue payload).request.method
        (Action.addTask queue payload).request.path = .addTask queue := (route_queue hname 0).1
    unfold Api.plan
    rw [hroute]
    show Plan.after (Api.text "payload" (jsonBody "payload" payload)) _ = _
    rw [text_jsonBody hpayload.1, after_text]
    rfl
  | claim queue =>
    have hroute : route (Action.claim queue).request.method (Action.claim queue).request.path
        = .claim queue := (route_queue h 0).2.1
    have hlength : (Action.claim queue).request.body.bytes.length ≤ maxBody := Nat.zero_le _
    unfold Api.plan
    rw [hroute, if_pos hlength]
    rfl
  | update queue id status =>
    obtain ⟨hname, hpos, hmax⟩ := h
    have hroute : route (Action.update queue id status).request.method
        (Action.update queue id status).request.path = .update queue (Strconv.decimal id) :=
      (route_queue hname id).2.2
    have hid : (Strconv.atoi (Strconv.decimal id)).filter (0 < ·) = some (id : ℤ) := by
      rw [Strconv.atoi_decimal, if_pos (lt_of_le_of_lt hmax (by decide)), Option.filter_some,
        if_pos (by simpa using hpos)]
    unfold Api.plan
    rw [hroute]
    show Plan.after ((Strconv.atoi (Strconv.decimal id)).filter (0 < ·)) _ = _
    rw [hid]
    show Plan.after (Api.text "status" (jsonBody "status" status.text)) _ = _
    rw [text_jsonBody (typed_status status).1, after_text]
    rfl

/-- The body of an action is read to the end, if no control character was typed. -/
theorem length_request {a : Action} (h : a.Possible) (htyped : Json.Typed a.typed) :
    a.request.body.bytes.length ≤ maxBody := by
  cases a with
  | createQueue name => exact length_jsonBody (by decide) htyped (h.2.trans (by decide))
  | addTask queue payload => exact length_jsonBody (by decide) htyped h.2.2
  | claim queue => exact Nat.zero_le _
  | update queue id status => exact length_status status

/-- **What the dashboard asks is what is done.** Whatever a user does – with any name that
a queue can have, any text that fits in its field and any number of a task – the server
carries out the operation that was meant, and none other, if the body of the request has
at most 16384 bytes; it is refused, and nothing changes, if it has more. It never has, if
the text that was typed has no control characters but tabulations and ends of lines. -/
theorem understood {R : Type} [LinearOrder R] [Zero R] [Strconv R] [TextLib] (s : Server R)
    (m : Moment) {a : Action} (h : a.Possible) :
    s.handle m a.request
        = (if a.request.body.bytes.length ≤ maxBody then s.carry m a.plan
          else (failed .invalid, s))
      ∧ (Json.Typed a.typed → a.request.body.bytes.length ≤ maxBody) := by
  refine ⟨?_, length_request h⟩
  rw [s.handle_eq, plan_request h]
  by_cases hlength : a.request.body.bytes.length ≤ maxBody
  · rw [if_pos hlength, if_pos hlength]
  · rw [if_neg hlength, if_neg hlength]
    rfl

/-- A text of which some characters are escaped, and some take two bytes. -/
def accents : GoString := str "\"Vérifié\" <ok>\t&"

theorem typed_accents : Json.Typed accents := by
  have hall : ((runes accents).all fun c => decide (32 ≤ c.toNat) || c == '\t') = true := by rfl
  refine ⟨isUTF8_str _, fun c hc => ?_⟩
  have hchar := List.all_eq_true.mp hall c hc
  rw [Bool.or_eq_true, decide_eq_true_eq, beq_iff_eq] at hchar
  obtain h | rfl := hchar
  · exact Or.inl h
  · exact Or.inr (by simp)

theorem understood_accents :
    let _ := TextLib.ascii
    Server.fresh.handle (Server.still 0) (Action.addTask (str "emails") accents).request
      = Server.fresh.carry (Server.still 0) (Action.addTask (str "emails") accents).plan := by
  intro _
  obtain ⟨hhandle, hlength⟩ := understood Server.fresh (Server.still 0)
    (a := .addTask (str "emails") accents)
    ⟨⟨by decide, by decide, by decide⟩, isUTF8_str _, by decide +kernel⟩
  rw [hhandle, if_pos (hlength typed_accents)]

end Dashboard

end WasmRedis
