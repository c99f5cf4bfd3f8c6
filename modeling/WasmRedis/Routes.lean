import WasmRedis.Foundation.Targets

/-!
# Routes

The server chooses what to do with a request by its method and its path. The path
is the escaped one, as `r.URL.EscapedPath()` gives it: a path that is not clean is
redirected, the others are split at each slash, and the escapes are undone in each
segment, so that `/` may stand in the name of a queue. The path of a `CONNECT` is
taken as it is, clean or not. Targets that are no path, `*` and the `host:port` of a
`CONNECT`, are left aside.

Every path under `/api/` belongs to the API, whatever the method: where no route
is meant it answers for itself that there is none (`route_api`), and never looks
for a file.
-/

namespace WasmRedis

open GoString

namespace Api

/-- The method of a request. -/
inductive Method where
  /-- `GET`. -/
  | get
  /-- `HEAD`, which the patterns of `GET` match too. -/
  | head
  /-- `POST`. -/
  | post
  /-- `PATCH`. -/
  | patch
  /-- `CONNECT`. -/
  | connect
  /-- Any other. -/
  | other
  deriving DecidableEq

/-- What a request is for. -/
inductive Route where
  /-- `GET /api/queues`. -/
  | listQueues
  /-- `POST /api/queues`. -/
  | createQueue
  /-- `GET /api/queues/{name}/tasks`. -/
  | tasks (name : GoString)
  /-- `POST /api/queues/{name}/tasks`. -/
  | addTask (name : GoString)
  /-- `POST /api/queues/{name}/claim`. -/
  | claim (name : GoString)
  /-- `PATCH /api/queues/{name}/tasks/{id}`. -/
  | update (name id : GoString)
  /-- `POST /api/command`. -/
  | command
  /-- `POST /api/batch`. -/
  | batch
  /-- `POST /api/flush`. -/
  | flush
  /-- `POST /api/snapshot`. -/
  | snapshot
  /-- `/api/`, for what is under it and is none of these. -/
  | unknown
  /-- `/`, for everything else: a file of `web/dist`. -/
  | files
  /-- A redirection to the path that was meant. -/
  | redirect
  deriving DecidableEq

/-! ## Paths -/

/-- The elements that are left of a path when it is cleaned. -/
def elements (path : GoString) : List GoString :=
  (path.splitOn 47).foldl (fun done element =>
    if element = [] ∨ element = str "." then done
    else if element = str ".." then done.dropLast
    else done ++ [element]) []

/-- `cleanPath(path)`: a slash at the end stays. -/
def cleanPath (path : GoString) : GoString :=
  let clean := 47 :: [47].intercalate (elements path)
  if path.getLast? = some 47 ∧ clean ≠ [47] then clean ++ [47] else clean

/-- `pathUnescape(s)`: what cannot be read is left as it is. -/
def pathUnescape (s : GoString) : GoString := (Targets.unescape false s).getD s

/-- The segments of a clean path; a slash at the end is one. -/
def pathSegments (path : GoString) : List GoString :=
  (path.splitOn 47).tail.map (fun s => if s = [] then str "/" else pathUnescape s)

/-! ## The routes -/

/-- A wildcard takes any segment but a slash. -/
def wildcard (s : GoString) : Prop := s ≠ str "/"

instance (s : GoString) : Decidable (wildcard s) := inferInstanceAs (Decidable (_ ≠ _))

/-- The routes under `/api/queues`. -/
def routeQueues (method : Method) : List GoString → Route
  | [] =>
    match method with
    | .get => .listQueues
    | .head => .listQueues
    | .post => .createQueue
    | _ => .unknown
  | [name, last] =>
    if ¬ wildcard name then .unknown
    else if last = str "tasks" then
      match method with
      | .get => .tasks name
      | .head => .tasks name
      | .post => .addTask name
      | _ => .unknown
    else if last = str "claim" ∧ method = .post then .claim name
    else .unknown
  | [name, tasks, id] =>
    if wildcard name ∧ tasks = str "tasks" ∧ wildcard id ∧ method = .patch then .update name id
    else .unknown
  | _ => .unknown

/-- The routes under `/api`. -/
def routeApi (method : Method) : List GoString → Route
  | first :: rest =>
    if first = str "queues" then routeQueues method rest
    else if method = .post ∧ rest = [] then
      if first = str "command" then .command
      else if first = str "batch" then .batch
      else if first = str "flush" then .flush
      else if first = str "snapshot" then .snapshot
      else .unknown
    else .unknown
  | [] => .unknown

/-- The route of a `CONNECT`, whose path is not cleaned: no pattern names the method. A path
that starts with a slash has a segment. -/
def routeConnect : List GoString → Route
  | [] => .redirect
  | first :: rest =>
    if first = str "api" then
      if rest = [] then .redirect else .unknown
    else .files

/-- The route of a request. -/
def route (method : Method) (path : GoString) : Route :=
  if method = .connect then routeConnect (pathSegments path)
  else if cleanPath path ≠ path then .redirect
  else
    match pathSegments path with
    | first :: rest =>
      if first = str "api" then
        if rest = [] then .redirect else routeApi method rest
      else .files
    | [] => .files

/-- The API has no route for a `CONNECT`. -/
theorem routeApi_connect (rest : List GoString) : routeApi .connect rest = .unknown := by
  have hqueues : ∀ segments, routeQueues .connect segments = .unknown := by
    rintro (_ | ⟨name, _ | ⟨last, _ | ⟨id, _ | _⟩⟩⟩)
    · rfl
    · rfl
    · unfold routeQueues
      dsimp only
      rw [if_neg (fun h : last = str "claim" ∧ Method.connect = .post => Method.noConfusion h.2),
        ite_self, ite_self]
    · exact if_neg (fun h => Method.noConfusion h.2.2.2)
    · rfl
  cases rest with
  | nil => rfl
  | cons first rest =>
    unfold routeApi
    dsimp only
    rw [if_neg (fun h : Method.connect = .post ∧ rest = [] => Method.noConfusion h.1), hqueues,
      ite_self]

/-- **What is under `/api/` belongs to the API**, whatever the method. -/
theorem route_api {method : Method} {path : GoString} {rest : List GoString}
    (hclean : cleanPath path = path) (hpath : pathSegments path = str "api" :: rest)
    (hne : rest ≠ []) : route method path = routeApi method rest := by
  unfold route
  rw [hpath]
  by_cases hmethod : method = .connect
  · rw [if_pos hmethod, hmethod, routeApi_connect]
    unfold routeConnect
    dsimp only
    rw [if_pos rfl, if_neg hne]
  · rw [if_neg hmethod, if_neg (not_not.mpr hclean)]
    dsimp only
    rw [if_pos rfl, if_neg hne]

/-! ## Paths that are clean -/

/-- A segment that is left as it is when a path is cleaned. -/
structure Segment (s : GoString) : Prop where
  /-- It is not empty. -/
  ne_nil : s ≠ []
  /-- There is no slash in it. -/
  no_slash : (47 : UInt8) ∉ s
  /-- It is not the directory itself. -/
  ne_dot : s ≠ str "."
  /-- It is not the directory above. -/
  ne_dots : s ≠ str ".."

/-- The path of some segments. -/
def pathOf (segments : List GoString) : GoString := segments.flatMap (47 :: ·)

theorem splitOn_pathOf {s : GoString} {segments : List GoString} (hs : (47 : UInt8) ∉ s)
    (h : ∀ segment ∈ segments, Segment segment) :
    (s ++ pathOf segments).splitOn 47 = s :: segments := by
  induction segments generalizing s with
  | nil => rw [show pathOf [] = [] from rfl, List.append_nil, List.splitOn_eq_singleton hs]
  | cons segment segments ih =>
    obtain ⟨hsegment, hrest⟩ := List.forall_mem_cons.mp h
    show (s ++ 47 :: (segment ++ pathOf segments)).splitOn 47 = _
    rw [List.splitOn_append_cons_self_of_not_mem hs, ih hsegment.no_slash hrest]

theorem intercalate_eq_pathOf (s : GoString) (segments : List GoString) :
    [47].intercalate (s :: segments) = s ++ pathOf segments := by
  induction segments generalizing s with
  | nil => simp [pathOf, List.intercalate]
  | cons segment segments ih =>
    have hrest := ih segment
    show [47].intercalate (s :: segment :: segments) = s ++ 47 :: (segment ++ pathOf segments)
    rw [← hrest]
    simp [List.intercalate]

/-- Cleaning keeps these segments. -/
theorem elements_pathOf {segments : List GoString} (h : ∀ segment ∈ segments, Segment segment) :
    elements (pathOf segments) = segments := by
  have hfold : ∀ done : List GoString, segments.foldl (fun done element =>
      if element = [] ∨ element = str "." then done
      else if element = str ".." then done.dropLast
      else done ++ [element]) done = done ++ segments := by
    induction segments with
    | nil => exact fun done => (List.append_nil done).symm
    | cons segment segments ih =>
      intro done
      obtain ⟨hsegment, hrest⟩ := List.forall_mem_cons.mp h
      rw [List.foldl_cons, if_neg (not_or.mpr ⟨hsegment.ne_nil, hsegment.ne_dot⟩),
        if_neg hsegment.ne_dots, ih hrest, List.append_assoc]
      rfl
  have hsplit := splitOn_pathOf (s := []) List.not_mem_nil h
  rw [List.nil_append] at hsplit
  unfold elements
  rw [hsplit, List.foldl_cons, if_pos (Or.inl rfl), hfold, List.nil_append]

/-- Such a path is clean. -/
theorem cleanPath_pathOf {segments : List GoString} (hne : segments ≠ [])
    (h : ∀ segment ∈ segments, Segment segment) :
    cleanPath (pathOf segments) = pathOf segments := by
  have hlast : (pathOf segments).getLast? ≠ some 47 := by
    obtain ⟨before, last, rfl⟩ := List.eq_nil_or_concat segments |>.resolve_left hne
    have hsegment : Segment last := h last (by simp)
    intro heq
    refine hsegment.no_slash (List.mem_of_getLast? (l := last) ?_)
    obtain ⟨b, l, hbl⟩ := List.exists_cons_of_ne_nil hsegment.ne_nil
    unfold pathOf at heq
    rw [List.concat_eq_append, List.flatMap_append, List.flatMap_singleton,
      List.getLast?_append_of_ne_nil _ (List.cons_ne_nil _ _)] at heq
    rw [hbl] at heq ⊢
    rwa [List.getLast?_cons_cons] at heq
  have hclean : 47 :: [47].intercalate (elements (pathOf segments)) = pathOf segments := by
    rw [elements_pathOf h]
    obtain ⟨segment, rest, rfl⟩ := List.exists_cons_of_ne_nil hne
    rw [intercalate_eq_pathOf]
    rfl
  unfold cleanPath
  dsimp only
  rw [if_neg (fun hslash => hlast hslash.1), hclean]

/-- **The route of a path under `/api/`**: its segments, with their escapes undone. -/
theorem route_pathOf {method : Method} {segments : List GoString} (hne : segments ≠ [])
    (h : ∀ segment ∈ segments, Segment segment) :
    route method (pathOf (str "api" :: segments))
      = routeApi method (segments.map pathUnescape) := by
  have hall : ∀ segment ∈ str "api" :: segments, Segment segment :=
    List.forall_mem_cons.mpr ⟨⟨by decide, by decide, by decide, by decide⟩, h⟩
  refine route_api (cleanPath_pathOf (List.cons_ne_nil _ _) hall) ?_ (by simpa using hne)
  have hsplit := splitOn_pathOf (s := []) List.not_mem_nil hall
  rw [List.nil_append] at hsplit
  unfold pathSegments
  rw [hsplit, List.tail_cons, List.map_cons, if_neg (by decide)]
  refine congrArg₂ List.cons (by decide) (List.map_congr_left (fun segment hmem => ?_))
  exact if_neg (h segment hmem).ne_nil

/-- A segment that is escaped stands between two others. -/
example : route .post (str "/api/queues/a%2Fb/claim") = .claim (str "a/b") := by decide +kernel

/-- A path that is not clean is redirected, unless it is that of a `CONNECT`, and one that no
route has is unknown. -/
example : route .get (str "/api//queues") = .redirect
    ∧ route .connect (str "/api//queues") = .unknown
    ∧ route .other (str "/api/queues") = .unknown
    ∧ route .post (str "/api/queues/%2F/claim") = .unknown
    ∧ route .get (str "/favicon.ico") = .files := by decide +kernel

end Api

end WasmRedis
