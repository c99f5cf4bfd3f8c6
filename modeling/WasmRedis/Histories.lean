import WasmRedis.Bookkeeping

/-!
# The histories of the tasks

Any number of clients create queues, add tasks, claim them and update them. What
becomes of one task is read off the run in two ways: by the statuses it has
from call to call, and by the calls that were addressed to it and succeeded.

One lemma relates the two, call by call (`call_statusOf`): a task changes its
status in a successful `Claim` or `Update` of it, as `Status.Moves` allows, and
in no other call. The rest is about paths: from running to pending the only way
is through failed (`exists_fail_retry`), so that between two claims of a task
lie a failure and a retry; and what runs is ended once (`running_or_ended`).
-/

namespace WasmRedis

open GoString

namespace Status

/-- The text of a status names it, and no other text does. -/
theorem ofText_eq_some {text : GoString} {status : Status} :
    ofText text = some status ↔ text = status.text := by
  constructor
  · intro h
    unfold ofText at h
    simpa using List.find?_some h
  · rintro rfl
    cases status <;> decide

end Status

namespace Queues

/-! ## Histories -/

/-- The status of a task of a queue; `none` where there is no such task. -/
def statusOf (name : GoString) (id : ℤ) (q : Queues) : Option Status :=
  (q.queues.lookup name).bind (fun entry => (KeyedList.find Task.id id entry.tasks).map Task.status)

/-- **The history of a task** over a run: its statuses, as they succeed one
another. -/
def history (name : GoString) (id : ℤ) (calls : List Call) : List Status :=
  (system.observed (statusOf name id) new calls).reduceOption.destutter (· ≠ ·)

/-- How what is observed of a task may change in one call. -/
inductive Next : Option Status → Option Status → Prop where
  /-- It does not. -/
  | stay (status : Option Status) : Next status status
  /-- The task is added. -/
  | added : Next none (some .pending)
  /-- It moves. -/
  | moved {current status : Status} : current.Moves status → Next (some current) (some status)

/-- A successful `Claim` that returns the task with a number. -/
def Claims (id : ℤ) (c : Call) (answer : Answer) : Prop :=
  ∃ name task, c = .claim name ∧ answer = .task (.ok task) ∧ task.id = id

/-- A successful `Update` of a task to a status. -/
def Updates (name : GoString) (id : ℤ) (status : Status) (c : Call) (answer : Answer) : Prop :=
  c = .update name id status.text ∧ ∃ task, answer = .task (.ok task)

/-- An `Update` of a task to completed or failed, successful or not. -/
def Ends (name : GoString) (id : ℤ) (c : Call) : Prop :=
  c = .update name id Status.completed.text ∨ c = .update name id Status.failed.text

section Steps

variable {q : Queues} {name : GoString} {id : ℤ}

theorem statusOf_of_mem (h : q.Sound) {entry : Queue}
    (hentry : q.queues.lookup name = some entry) {task : Task} (hmem : task ∈ entry.tasks) :
    statusOf name task.id q = some task.status := by
  unfold statusOf
  rw [hentry, Option.bind_some, KeyedList.find_of_mem (h.nodup hentry) hmem, Option.map_some]

/-- What has a status is a task of the queue. -/
theorem exists_of_statusOf {status : Status} (h : statusOf name id q = some status) :
    ∃ entry task, q.queues.lookup name = some entry ∧ task ∈ entry.tasks ∧ task.id = id
      ∧ task.status = status := by
  unfold statusOf at h
  rw [Option.bind_eq_some_iff] at h
  obtain ⟨entry, hentry, hfind⟩ := h
  rw [Option.map_eq_some_iff] at hfind
  obtain ⟨task, hfind, hstatus⟩ := hfind
  obtain ⟨hmem, hid⟩ := KeyedList.find_eq_some hfind
  exact ⟨entry, task, hentry, hmem, hid, hstatus⟩

/-- A number belongs to a task of one queue only. -/
theorem name_eq_of_statusOf (h : q.Sound) {name' : GoString} {status status' : Status}
    (hs : statusOf name id q = some status) (hs' : statusOf name' id q = some status') :
    name = name' := by
  obtain ⟨entry, task, hentry, hmem, rfl, _⟩ := exists_of_statusOf hs
  obtain ⟨entry', task', hentry', hmem', hid, _⟩ := exists_of_statusOf hs'
  by_contra hne
  refine h.disjoint name name' entry entry' hentry hentry' hne (List.mem_map_of_mem hmem) ?_
  rw [← hid]
  exact List.mem_map_of_mem hmem'

/-- Moving a task is seen at this task alone. -/
theorem statusOf_moved (h : q.Sound) {n : GoString} {entry : Queue}
    (hentry : q.queues.lookup n = some entry) {task : Task} (hmem : task ∈ entry.tasks)
    (status : Status) :
    statusOf name id { q with queues := q.queues.insert n (entry.moved task status) }
      = if name = n ∧ id = task.id then some status else statusOf name id q := by
  unfold statusOf
  by_cases hn : name = n
  · subst hn
    rw [Finmap.lookup_insert, hentry, Option.bind_some, Option.bind_some]
    show (KeyedList.find Task.id id
      (KeyedList.change Task.id task.id (Task.moved status) entry.tasks)).map Task.status = _
    rw [KeyedList.find_change (f := Task.moved status) (fun _ => rfl)]
    by_cases hid : id = task.id
    · rw [if_pos hid, if_pos ⟨rfl, hid⟩, KeyedList.find_of_mem (h.nodup hentry) hmem]
      rfl
    · rw [if_neg hid, if_neg (fun hc => hid hc.2)]
  · rw [if_neg (fun hc => hn hc.1), Finmap.lookup_insert_of_ne _ hn]

/-- Making a queue is not seen at any task. -/
theorem statusOf_created {n : GoString} (hnone : q.queues.lookup n = none) :
    statusOf name id { q with queues := q.queues.insert n emptyQueue } = statusOf name id q := by
  unfold statusOf
  by_cases hn : name = n
  · subst hn
    rw [Finmap.lookup_insert, hnone]
    rfl
  · rw [Finmap.lookup_insert_of_ne _ hn]

/-- Adding a task is seen at this task alone, which was not there. -/
theorem statusOf_added {n : GoString} {entry : Queue}
    (hentry : q.queues.lookup n = some entry) {task : Task} (hp : task.status = .pending) :
    statusOf name id ⟨q.queues.insert n (entry.added task), q.nextID + 1⟩ = statusOf name id q
      ∨ statusOf name id q = none
        ∧ statusOf name id ⟨q.queues.insert n (entry.added task), q.nextID + 1⟩
          = some .pending := by
  unfold statusOf
  by_cases hn : name = n
  · subst hn
    rw [Finmap.lookup_insert, hentry, Option.bind_some, Option.bind_some]
    show (KeyedList.find Task.id id (entry.tasks ++ [task])).map Task.status = _ ∨ _
      ∧ (KeyedList.find Task.id id (entry.tasks ++ [task])).map Task.status = _
    rw [KeyedList.find_append]
    cases hfind : KeyedList.find Task.id id entry.tasks with
    | some task' => exact Or.inl rfl
    | none =>
      rw [Option.none_or]
      by_cases hk : task.id = id
      · refine Or.inr ⟨rfl, ?_⟩
        have hself : KeyedList.find Task.id task.id [task] = some task :=
          KeyedList.find_of_mem (List.nodup_singleton _) List.mem_cons_self
        rw [← hk, hself, Option.map_some, hp]
      · have hother : KeyedList.find Task.id id [task] = none := by
          simp [KeyedList.find, hk]
        exact Or.inl (by rw [hother])
  · rw [Finmap.lookup_insert_of_ne _ hn]
    exact Or.inl rfl

/-! ## What a call does to a task -/

/-- **A successful Claim** starts the task it returns, which was pending. -/
theorem claim_ok (h : q.Sound) {task : Task} (hok : (q.call (.claim name)).1 = .task (.ok task)) :
    statusOf name task.id q = some .pending
      ∧ statusOf name task.id (q.call (.claim name)).2 = some .running := by
  show _ ∧ statusOf name task.id (q.claim name).2 = _
  have hok' : Answer.task (q.claim name).1 = .task (.ok task) := hok
  obtain ⟨err, heq⟩ | ⟨entry, pending, hentry, hmem, hp, heq⟩ := claim_cases h name
  · rw [heq] at hok'
    cases hok'
  · rw [heq] at hok' ⊢
    cases hok'
    refine ⟨(statusOf_of_mem h hentry hmem).trans (congrArg some hp), ?_⟩
    rw [statusOf_moved h hentry hmem, if_pos ⟨rfl, rfl⟩]

/-- **The Update of a task** to a status: it moves, or refuses with a conflict. -/
theorem update_eq (h : q.Sound) {current : Status} (hs : statusOf name id q = some current)
    (status : Status) :
    current.Updates status ∧ Updates name id status (.update name id status.text)
        (q.call (.update name id status.text)).1
        ∧ statusOf name id (q.call (.update name id status.text)).2 = some status
      ∨ ¬ current.Updates status
        ∧ q.call (.update name id status.text) = (.task (.error .conflict), q) := by
  obtain ⟨entry, task, hentry, hmem, rfl, rfl⟩ := exists_of_statusOf hs
  have heq := update_of_mem h hentry hmem (Status.ofText_eq_some.mpr (rfl : status.text = _))
  by_cases hu : task.status.Updates status
  · rw [if_pos hu] at heq
    refine Or.inl ⟨hu, ⟨rfl, task.moved status, ?_⟩, ?_⟩
    · exact congrArg (fun r => Answer.task r.1) heq
    · show statusOf name task.id (q.update name task.id status.text).2 = some status
      rw [heq, statusOf_moved h hentry hmem, if_pos ⟨rfl, rfl⟩]
  · rw [if_neg hu] at heq
    exact Or.inr ⟨hu, congrArg (fun r => (Answer.task r.1, r.2)) heq⟩

/-- A task that runs can be ended, and does not run then. -/
theorem ends_running {c : Call} (h : q.Sound) (hs : statusOf name id q = some .running)
    (hends : Ends name id c) : (∃ task, (q.call c).1 = .task (.ok task))
      ∧ ∃ status, statusOf name id (q.call c).2 = some status ∧ status ≠ .running := by
  obtain rfl | rfl := hends
  · obtain ⟨_, hupd, hnew⟩ | ⟨hno, _⟩ := update_eq h hs .completed
    · exact ⟨hupd.2, .completed, hnew, by decide⟩
    · exact absurd (by decide) hno
  · obtain ⟨_, hupd, hnew⟩ | ⟨hno, _⟩ := update_eq h hs .failed
    · exact ⟨hupd.2, .failed, hnew, by decide⟩
    · exact absurd (by decide) hno

/-- A task that does not run cannot. -/
theorem ends_refused {c : Call} (h : q.Sound) {current : Status}
    (hs : statusOf name id q = some current) (hne : current ≠ .running) (hends : Ends name id c) :
    q.call c = (.task (.error .conflict), q) := by
  have hrefused : ∀ status, status = .completed ∨ status = .failed → ¬ current.Updates status := by
    rintro status (rfl | rfl) (⟨hr, _⟩ | ⟨_, hp⟩)
    · exact hne hr
    · cases hp
    · exact hne hr
    · cases hp
  obtain rfl | rfl := hends
  · obtain ⟨hu, _⟩ | ⟨_, heq⟩ := update_eq h hs .completed
    · exact absurd hu (hrefused _ (Or.inl rfl))
    · exact heq
  · obtain ⟨hu, _⟩ | ⟨_, heq⟩ := update_eq h hs .failed
    · exact absurd hu (hrefused _ (Or.inr rfl))
    · exact heq

/-- **What a call does to a task**: nothing, or it adds it, or claims it, or moves
it by a successful `Update` of it. -/
theorem call_statusOf (h : q.Sound) (c : Call) (name : GoString) (id : ℤ) :
    statusOf name id (q.call c).2 = statusOf name id q
      ∨ (statusOf name id q = none ∧ statusOf name id (q.call c).2 = some .pending)
      ∨ (Claims id c (q.call c).1 ∧ statusOf name id q = some .pending
        ∧ statusOf name id (q.call c).2 = some .running)
      ∨ ∃ current status, Updates name id status c (q.call c).1 ∧ current.Updates status
        ∧ statusOf name id q = some current ∧ statusOf name id (q.call c).2 = some status := by
  have heffect := call_effect h c
  generalize q.call c = r at heffect
  obtain ⟨answer, q'⟩ := r
  dsimp only at heffect ⊢
  cases heffect with
  | kept _ => exact Or.inl rfl
  | created hnone => exact Or.inl (statusOf_created hnone)
  | added hentry _ hp =>
    obtain hsame | hadded := statusOf_added hentry hp
    · exact Or.inl hsame
    · exact Or.inr (Or.inl hadded)
  | @claimed n entry task hentry hmem hp =>
    rw [statusOf_moved h hentry hmem]
    by_cases hc : name = n ∧ id = task.id
    · rw [if_pos hc]
      obtain ⟨rfl, rfl⟩ := hc
      exact Or.inr (Or.inr (Or.inl ⟨⟨name, _, rfl, rfl, rfl⟩,
        (statusOf_of_mem h hentry hmem).trans (congrArg some hp), rfl⟩))
    · exact Or.inl (if_neg hc)
  | @updated n text entry task status hentry hmem htext hu =>
    rw [statusOf_moved h hentry hmem]
    by_cases hc : name = n ∧ id = task.id
    · rw [if_pos hc]
      obtain ⟨rfl, rfl⟩ := hc
      obtain rfl := Status.ofText_eq_some.mp htext
      exact Or.inr (Or.inr (Or.inr ⟨task.status, status, ⟨rfl, _, rfl⟩, hu,
        statusOf_of_mem h hentry hmem, rfl⟩))
    · exact Or.inl (if_neg hc)

/-- A task moves as its status allows. -/
theorem call_next (h : q.Sound) (c : Call) :
    Next (statusOf name id q) (statusOf name id (q.call c).2) := by
  obtain heq | ⟨hnone, hadded⟩ | ⟨_, hp, hr⟩ | ⟨current, status, _, hu, hcur, hnew⟩ :=
    call_statusOf h c name id
  · rw [heq]
    exact Next.stay _
  · rw [hnone, hadded]
    exact Next.added
  · rw [hp, hr]
    exact Next.moved Status.Moves.start
  · rw [hcur, hnew]
    exact Next.moved hu.moves

end Steps

/-! ## Paths -/

/-- The path of a task that is there. -/
theorem exists_path {status : Status} {l : List (Option Status)}
    (h : (some status :: l).IsChain Next) :
    ∃ rest, l.reduceOption.destutter' (· ≠ ·) status = status :: rest
      ∧ (status :: rest).IsChain Status.Moves := by
  induction l generalizing status with
  | nil => exact ⟨[], rfl, List.isChain_singleton _⟩
  | cons next l ih =>
    obtain ⟨hnext, hrest⟩ := List.isChain_cons_cons.mp h
    cases hnext with
    | stay =>
      rw [List.reduceOption_cons_of_some, List.destutter'_cons_neg _ (not_not.mpr rfl)]
      exact ih hrest
    | moved hmoves =>
      obtain ⟨rest, heq, hchain⟩ := ih hrest
      rw [List.reduceOption_cons_of_some, List.destutter'_cons_pos _ hmoves.ne, heq]
      exact ⟨_, rfl, List.isChain_cons_cons.mpr ⟨hmoves, hchain⟩⟩

/-- The path of a task that is not there yet begins at pending. -/
theorem path_of_isChain {l : List (Option Status)} (h : (none :: l).IsChain Next) :
    (l.reduceOption.destutter (· ≠ ·)).IsChain Status.Moves
      ∧ ∀ status ∈ (l.reduceOption.destutter (· ≠ ·)).head?, status = .pending := by
  induction l with
  | nil => exact ⟨List.isChain_nil, nofun⟩
  | cons next l ih =>
    obtain ⟨hnext, hrest⟩ := List.isChain_cons_cons.mp h
    cases hnext with
    | stay =>
      rw [List.reduceOption_cons_of_none]
      exact ih hrest
    | added =>
      obtain ⟨rest, heq, hchain⟩ := exists_path hrest
      rw [List.reduceOption_cons_of_some, List.destutter_cons', heq]
      exact ⟨hchain, fun status hs => (Option.some.inj hs).symm⟩

/-- **The history of every task** is a path of the moves, and begins at
pending. -/
theorem history_path (name : GoString) (id : ℤ) (calls : List Call) :
    (history name id calls).IsChain Status.Moves
      ∧ ∀ status ∈ (history name id calls).head?, status = .pending := by
  have hchain : (system.observed (statusOf name id) new calls).IsChain Next :=
    (admits_system new calls).isChain_observed (I := Sound) sound_new
      (fun _ c _ hs => call_sound hs c) (fun _ c _ hs => call_next hs c)
  have hnew : statusOf name id new = none := rfl
  refine path_of_isChain (List.isChain_cons.mpr ⟨fun first hfirst => ?_, hchain⟩)
  have hfirst' : statusOf name id new = first := by
    cases calls <;> exact Option.some.inj hfirst
  rw [← hfirst', hnew]
  exact Next.stay _

/-! ## Runs -/

section Runs

variable {q : Queues} {name : GoString} {id : ℤ}

theorem after_sound (h : q.Sound) (calls : List Call) : (system.after q calls).Sound :=
  (admits_system q calls).invariant h (fun _ c _ hs => call_sound hs c)

/-- A task that is there stays there. -/
theorem exists_status_after (h : q.Sound) {status : Status}
    (hs : statusOf name id q = some status) (calls : List Call) :
    ∃ status', statusOf name id (system.after q calls) = some status' := by
  obtain ⟨entry, task, hentry, hmem, rfl, _⟩ := exists_of_statusOf hs
  obtain ⟨entry', hentry', hprefix⟩ := h.kept calls hentry
  have hkept : task.identity ∈ entry'.tasks.map Task.identity :=
    hprefix.subset (List.mem_map_of_mem hmem)
  obtain ⟨task', hmem', hidentity⟩ := List.mem_map.mp hkept
  have hid : task'.id = task.id := congrArg Prod.fst hidentity
  exact ⟨_, hid ▸ statusOf_of_mem (after_sound h calls) hentry' hmem'⟩

/-- **Completed is never left.** -/
theorem completed_after (h : q.Sound) (hs : statusOf name id q = some .completed)
    (calls : List Call) : statusOf name id (system.after q calls) = some .completed := by
  refine ((admits_system q calls).invariant (I := fun q => q.Sound
    ∧ statusOf name id q = some .completed) ⟨h, hs⟩ (fun q c _ hq => ?_)).2
  refine ⟨call_sound hq.1 c, ?_⟩
  have hnext : Next (statusOf name id q) (statusOf name id (q.call c).2) := call_next hq.1 c
  rw [hq.2] at hnext
  show statusOf name id (q.call c).2 = some .completed
  generalize statusOf name id (q.call c).2 = status at hnext
  cases hnext with
  | stay => rfl
  | moved hmoves => cases hmoves

/-- **The first move of a task** in a run, if it moves at all: a claim of it, or an
`Update` that its status allows. -/
theorem first_move (h : q.Sound) {status : Status} (hs : statusOf name id q = some status)
    (calls : List Call) :
    statusOf name id (system.after q calls) = some status
      ∨ ∃ fs c gs, calls = fs ++ c :: gs
        ∧ (Claims id c (system.answer q fs c) ∧ status = .pending
            ∧ statusOf name id (system.after q fs) = some .pending
          ∨ ∃ status', Updates name id status' c (system.answer q fs c)
            ∧ status.Updates status'
            ∧ statusOf name id ((system.after q fs).call c).2 = some status') := by
  induction calls generalizing q with
  | nil => exact Or.inl hs
  | cons c calls ih =>
    obtain heq | ⟨hnone, _⟩ | ⟨hclaim, hp, _⟩ | ⟨current, status', hupd, hu, hcur, hnew⟩ :=
      call_statusOf h c name id
    · obtain hstay | ⟨fs, c', gs, rfl, hmove⟩ := ih (call_sound h c) (heq.trans hs)
      · exact Or.inl hstay
      · exact Or.inr ⟨c :: fs, c', gs, rfl, hmove⟩
    · rw [hs] at hnone
      cases hnone
    · rw [hs] at hp
      exact Or.inr ⟨[], c, calls, rfl, Or.inl ⟨hclaim, Option.some.inj hp, hs.trans hp⟩⟩
    · rw [hs] at hcur
      cases hcur
      exact Or.inr ⟨[], c, calls, rfl, Or.inr ⟨status', hupd, hu, hnew⟩⟩

/-- **From failed to pending** there is a successful retry. -/
theorem exists_retry {calls : List Call} (h : q.Sound) (hs : statusOf name id q = some .failed)
    (hend : statusOf name id (system.after q calls) = some .pending) :
    ∃ fs c gs, calls = fs ++ c :: gs ∧ Updates name id .pending c (system.answer q fs c) := by
  obtain hstay | ⟨fs, c, gs, rfl, ⟨_, hp, _⟩ | ⟨status, hupd, hu, _⟩⟩ := first_move h hs calls
  · rw [hstay] at hend
    cases hend
  · cases hp
  · -- a failed task can only be put back
    obtain ⟨hc, _⟩ | ⟨_, rfl⟩ := hu
    · cases hc
    · exact ⟨fs, c, gs, rfl, hupd⟩

/-- **From running to pending** there is a failure, and then a retry. -/
theorem exists_fail_retry {calls : List Call} (h : q.Sound)
    (hs : statusOf name id q = some .running)
    (hend : statusOf name id (system.after q calls) = some .pending) :
    ∃ fs c gs c' gs', calls = fs ++ c :: (gs ++ c' :: gs')
      ∧ Updates name id .failed c (system.answer q fs c)
      ∧ Updates name id .pending c' (system.answer q (fs ++ c :: gs) c') := by
  obtain hstay | ⟨fs, c, gs, rfl, ⟨_, hp, _⟩ | ⟨status, hupd, hu, hnew⟩⟩ := first_move h hs calls
  · rw [hstay] at hend
    cases hend
  · cases hp
  · have hsound := call_sound (after_sound h fs) c
    have hend' : statusOf name id (system.after ((system.after q fs).call c).2 gs)
        = some .pending := (congrArg _ (System.after_append _ _ _ _)).symm.trans hend
    obtain ⟨_, rfl | rfl⟩ | ⟨hc, _⟩ := hu
    · rw [completed_after hsound hnew] at hend'
      cases hend'
    · obtain ⟨gs, c', gs', rfl, hretry⟩ := exists_retry hsound hnew hend'
      refine ⟨fs, c, gs, c', gs', rfl, hupd, ?_⟩
      rw [System.answer, System.after_append]
      exact hretry
    · cases hc

/-- A task that is not running does not run before it is claimed. -/
theorem not_running_after {calls : List Call} (h : q.Sound)
    (hclaims : system.Throughout (fun _ c answer => ¬ Claims id c answer) q calls)
    {status : Status} (hs : statusOf name id q = some status) (hne : status ≠ .running) :
    ∃ status', statusOf name id (system.after q calls) = some status' ∧ status' ≠ .running := by
  refine (hclaims.invariant (I := fun q => q.Sound ∧ ∃ status', statusOf name id q = some status'
    ∧ status' ≠ .running) (admits_system q calls) ⟨h, status, hs, hne⟩ (fun q c _ hc hq => ?_)).2
  obtain ⟨hsound, status', hs', hne'⟩ := hq
  refine ⟨call_sound hsound c, ?_⟩
  show ∃ s, statusOf name id (q.call c).2 = some s ∧ s ≠ .running
  obtain heq | ⟨hnone, _⟩ | ⟨hclaim, _⟩ | ⟨current, new', _, hu, _, hnew⟩ :=
    call_statusOf hsound c name id
  · exact ⟨status', heq.trans hs', hne'⟩
  · rw [hs'] at hnone
    cases hnone
  · exact absurd hclaim hc
  · refine ⟨new', hnew, ?_⟩
    obtain ⟨_, rfl | rfl⟩ | ⟨_, rfl⟩ := hu <;> decide

/-- **What runs is ended once.** From a claim to the next, the task runs until the
first `Update` that ends it, and not after it. -/
theorem running_or_ended {calls : List Call} (h : q.Sound)
    (hclaims : system.Throughout (fun _ c answer => ¬ Claims id c answer) q calls)
    (hs : statusOf name id q = some .running) :
    (∀ c ∈ calls, ¬ Ends name id c) ∧ statusOf name id (system.after q calls) = some .running
      ∨ (∃ c ∈ calls, Ends name id c)
        ∧ ∃ status, statusOf name id (system.after q calls) = some status ∧ status ≠ .running := by
  induction calls generalizing q with
  | nil => exact Or.inl ⟨nofun, hs⟩
  | cons c calls ih =>
    obtain ⟨hclaim, hrest⟩ := hclaims
    by_cases hends : Ends name id c
    · refine Or.inr ⟨⟨c, List.mem_cons_self, hends⟩, ?_⟩
      obtain ⟨_, status, hnew, hne⟩ := ends_running h hs hends
      have hnot := not_running_after (call_sound h c) hrest hnew hne
      exact hnot
    · have hkept : statusOf name id (q.call c).2 = some .running := by
        obtain heq | ⟨hnone, _⟩ | ⟨hc, _⟩ | ⟨current, status, hupd, hu, hcur, _⟩ :=
          call_statusOf h c name id
        · exact heq.trans hs
        · rw [hs] at hnone
          cases hnone
        · exact absurd hc hclaim
        · rw [hs] at hcur
          cases hcur
          obtain ⟨_, rfl | rfl⟩ | ⟨hc, _⟩ := hu
          · exact absurd (Or.inl hupd.1) hends
          · exact absurd (Or.inr hupd.1) hends
          · cases hc
      obtain ⟨hnone, hrun⟩ | ⟨hsome, hnot⟩ := ih (call_sound h c) hrest hkept
      · exact Or.inl ⟨List.forall_mem_cons.mpr ⟨hends, hnone⟩, hrun⟩
      · obtain ⟨c', hmem, hc'⟩ := hsome
        exact Or.inr ⟨⟨c', List.mem_cons_of_mem _ hmem, hc'⟩, hnot⟩

end Runs

/-! ## The theorem -/

/-- The state after a claim, in which its task runs. -/
theorem claimed {ds : List Call} {name : GoString} {task : Task}
    (hclaim : system.answer new ds (.claim name) = .task (.ok task)) :
    (system.after new (ds ++ [.claim name])).Sound
      ∧ statusOf name task.id (system.after new (ds ++ [.claim name])) = some .running := by
  have hsound := after_sound sound_new ds
  rw [System.after_concat]
  exact ⟨call_sound hsound _, (claim_ok hsound hclaim).2⟩

/-- **Exclusive claims and legal histories**, over any run of calls.

The history of every task is a path of the moves that begins at pending, and
completed is never left. Between two successful `Claim`s that return one task
lie a successful `Update` of it to failed and then one back to pending. And of
the `Update`s that would end a task after a successful `Claim` and before the
next one, the first succeeds; any other is refused with a conflict and changes
nothing. -/
theorem histories :
    (∀ name id calls, (history name id calls).IsChain Status.Moves
      ∧ ∀ status ∈ (history name id calls).head?, status = .pending)
    ∧ (∀ ds es name id, statusOf name id (system.after new ds) = some .completed →
      statusOf name id (system.after new (ds ++ es)) = some .completed)
    ∧ (∀ ds es name name' task task',
      system.answer new ds (.claim name) = .task (.ok task) →
      system.answer new (ds ++ [.claim name] ++ es) (.claim name') = .task (.ok task') →
      task.id = task'.id →
      ∃ fs c gs c' gs', es = fs ++ c :: (gs ++ c' :: gs')
        ∧ Updates name task.id .failed c (system.answer new (ds ++ [.claim name] ++ fs) c)
        ∧ Updates name task.id .pending c'
          (system.answer new (ds ++ [.claim name] ++ (fs ++ c :: gs)) c'))
    ∧ ∀ ds es name task c, system.answer new ds (.claim name) = .task (.ok task) →
      system.Throughout (fun _ c answer => ¬ Claims task.id c answer)
        (system.after new (ds ++ [.claim name])) es →
      Ends name task.id c →
      ((∀ c' ∈ es, ¬ Ends name task.id c') →
        ∃ task', system.answer new (ds ++ [.claim name] ++ es) c = .task (.ok task'))
      ∧ ((∃ c' ∈ es, Ends name task.id c') →
        system.step (system.after new (ds ++ [.claim name] ++ es)) c
          = (.task (.error .conflict), system.after new (ds ++ [.claim name] ++ es))) := by
  refine ⟨history_path, fun ds es name id hs => ?_, ?_, ?_⟩
  · rw [System.after_append]
    exact completed_after (after_sound sound_new ds) hs es
  · intro ds es name name' task task' hclaim hclaim' hid
    obtain ⟨hsound, hrun⟩ := claimed hclaim
    rw [System.answer, System.after_append] at hclaim'
    have hsound' := after_sound hsound es
    obtain ⟨hpending, _⟩ := claim_ok hsound' hclaim'
    rw [← hid] at hpending
    -- the second claim is in the queue of the first
    obtain ⟨status, hs⟩ := exists_status_after hsound hrun es
    obtain rfl : name = name' := name_eq_of_statusOf hsound' hs hpending
    obtain ⟨fs, c, gs, c', gs', rfl, hfail, hretry⟩ := exists_fail_retry hsound hrun hpending
    refine ⟨fs, c, gs, c', gs', rfl, ?_, ?_⟩
    · rwa [System.answer, System.after_append]
    · rwa [System.answer, System.after_append]
  · intro ds es name task c hclaim hclaims hends
    obtain ⟨hsound, hrun⟩ := claimed hclaim
    have hsound' := after_sound hsound es
    rw [System.answer, System.after_append]
    have hcases := running_or_ended hsound hclaims hrun
    generalize system.after (system.after new (ds ++ [.claim name])) es = q at hsound' hcases ⊢
    constructor
    · intro hfirst
      obtain ⟨_, hs⟩ | ⟨⟨c', hmem, hc'⟩, _⟩ := hcases
      · exact (ends_running hsound' hs hends).1
      · exact absurd hc' (hfirst c' hmem)
    · rintro ⟨c', hmem, hc'⟩
      obtain ⟨hnone, _⟩ | ⟨_, status, hs, hne⟩ := hcases
      · exact absurd hc' (hnone c' hmem)
      · exact ends_refused hsound' hs hne hends

/-- Two clients end the task they believe to be theirs: the second one is
refused. -/
theorem histories_emails :
    system.step
        (system.after new ([.create (str "emails"), .add (str "emails") (str "premier") 0]
          ++ [.claim (str "emails")] ++ [.update (str "emails") 1 Status.completed.text]))
        (.update (str "emails") 1 Status.failed.text)
      = (.task (.error .conflict),
        system.after new ([.create (str "emails"), .add (str "emails") (str "premier") 0]
          ++ [.claim (str "emails")] ++ [.update (str "emails") 1 Status.completed.text])) := by
  have hclaim : system.answer new [.create (str "emails"), .add (str "emails") (str "premier") 0]
      (.claim (str "emails"))
        = .task (.ok
          { id := 1, payload := str "premier", status := .running, createdAt := 0 }) := by
    decide
  have hother : ∀ answer, ¬ Claims 1 (.update (str "emails") 1 Status.completed.text) answer := by
    rintro _ ⟨_, _, h, _⟩
    cases h
  exact (histories.2.2.2 _ [.update (str "emails") 1 Status.completed.text] _ _ _ hclaim
    ⟨hother _, trivial⟩ (Or.inr rfl)).2 ⟨_, List.mem_cons_self, Or.inl rfl⟩

end Queues

end WasmRedis
