import WasmRedis.Histories

/-!
# The order of service

A queue serves its tasks in the order in which they were added to it, and a task that
failed and is put back is served at the place it had. Nothing records that order but
the list of tasks: `insertions` reads it off the run, call by call, and the list is it in
every state a run reaches (`taskIds_eq`), since a task that moves stays where it is. The
first pending task of the list is then the earliest of all (`claim_first`), and it keeps
every later one waiting until it is claimed (`not_claimed_before`).
-/

namespace WasmRedis

open GoString

namespace Queues

/-! ## The order of insertion -/

/-- The number of the task that a call adds to the queue with a name. -/
def addedTo (name : GoString) : Call → Answer → List ℤ
  | .add n _ _, .task (.ok task) => if n = name then [task.id] else []
  | _, _ => []

/-- **The tasks added to a queue** over a run, in the order of the calls that added
them. -/
def insertions (name : GoString) (calls : List Call) : List ℤ :=
  system.collected (addedTo name) new calls

/-- The numbers of the tasks of a queue, in their order. -/
def taskIds (name : GoString) (q : Queues) : List ℤ :=
  (q.queues.lookup name).elim [] (fun entry => entry.tasks.map Task.id)

section Steps

variable {q : Queues} {name : GoString} {id : ℤ}

theorem taskIds_of_lookup {entry : Queue} (h : q.queues.lookup name = some entry) :
    taskIds name q = entry.tasks.map Task.id := by
  rw [taskIds, h, Option.elim_some]

theorem taskIds_moved {n : GoString} {entry : Queue} (hentry : q.queues.lookup n = some entry)
    (task : Task) (status : Status) :
    taskIds name { q with queues := q.queues.insert n (entry.moved task status) }
      = taskIds name q := by
  unfold taskIds
  by_cases hn : name = n
  · subst hn
    rw [Finmap.lookup_insert, hentry, Option.elim_some, Option.elim_some, ids_moved]
  · rw [Finmap.lookup_insert_of_ne _ hn]

/-- A call that adds nothing says so. -/
theorem addedTo_of_ne {c : Call} {answer : Answer} (h : ∀ task, answer ≠ .task (.ok task)) :
    addedTo name c answer = [] := by
  unfold addedTo
  split
  · next n payload now task => exact absurd rfl (h task)
  · rfl

/-- **What a call adds to a queue** goes at its end, and nothing else changes its order. -/
theorem taskIds_call (h : q.Sound) (c : Call) (name : GoString) :
    taskIds name (q.call c).2 = taskIds name q ++ addedTo name c (q.call c).1 := by
  have heffect := call_effect h c
  generalize q.call c = r at heffect
  obtain ⟨answer, q'⟩ := r
  dsimp only at heffect ⊢
  cases heffect with
  | kept hanswer => rw [addedTo_of_ne hanswer, List.append_nil]
  | @created n hnone =>
    rw [addedTo_of_ne (fun task => by simp), List.append_nil]
    unfold taskIds
    by_cases hn : name = n
    · subst hn
      rw [Finmap.lookup_insert, hnone]
      rfl
    · rw [Finmap.lookup_insert_of_ne _ hn]
  | @added n payload now entry task hentry _ _ =>
    show taskIds name _ = taskIds name q ++ if n = name then [task.id] else []
    unfold taskIds
    by_cases hn : name = n
    · subst hn
      rw [Finmap.lookup_insert, hentry, if_pos rfl, Option.elim_some, Option.elim_some,
        ids_added]
    · rw [Finmap.lookup_insert_of_ne _ hn, if_neg (Ne.symm hn), List.append_nil]
  | claimed hentry _ _ => exact (taskIds_moved hentry _ _).trans (List.append_nil _).symm
  | updated hentry _ _ _ => exact (taskIds_moved hentry _ _).trans (List.append_nil _).symm

end Steps

/-- **The order of a queue is the order of insertion**, in every state a run reaches. -/
theorem taskIds_eq (calls : List Call) (name : GoString) :
    taskIds name (system.after new calls) = insertions name calls :=
  (admits_system new calls).observed_eq_collected (I := Sound) sound_new
    (fun _ c _ hs => call_sound hs c) (fun _ c _ hs => taskIds_call hs c name)

/-- The numbers of the tasks increase in the order of insertion. -/
theorem insertions_increasing (calls : List Call) (name : GoString) :
    (insertions name calls).Pairwise (· < ·) := by
  rw [← taskIds_eq]
  cases hentry : (system.after new calls).queues.lookup name with
  | none =>
    rw [taskIds, hentry]
    exact List.Pairwise.nil
  | some entry =>
    rw [taskIds_of_lookup hentry]
    exact (after_sound sound_new calls).increasing name entry hentry

/-! ## The loop of Claim -/

/-- The loop finds the first pending task. -/
theorem claimTask_eq_find (tasks : List Task) :
    (claimTask tasks).map Prod.fst
      = (tasks.find? (fun task => task.status = .pending)).map (Task.moved .running) := by
  induction tasks with
  | nil => rfl
  | cons task tasks ih =>
    rw [claimTask]
    by_cases hp : task.status = .pending
    · rw [if_pos hp, List.find?_cons, decide_eq_true hp]
      rfl
    · rw [if_neg hp, List.find?_cons, decide_eq_false hp, ← ih]
      cases claimTask tasks <;> rfl

/-- **A claim starts the first pending task of the queue**, and there is one. -/
theorem claim_answer_iff {q : Queues} {name : GoString} {entry : Queue}
    (hentry : q.queues.lookup name = some entry) (task : Task) :
    (q.call (.claim name)).1 = .task (.ok task)
      ↔ ∃ pending, entry.tasks.find? (fun task => task.status = .pending) = some pending
        ∧ task = pending.moved .running := by
  show Answer.task (q.claim name).1 = _ ↔ _
  have hfind := claimTask_eq_find entry.tasks
  unfold claim
  rw [hentry]
  dsimp only
  cases hclaim : claimTask entry.tasks with
  | none =>
    rw [hclaim, Option.map_none, eq_comm, Option.map_eq_none_iff] at hfind
    simp [hfind]
  | some claimed =>
    rw [hclaim, Option.map_some, eq_comm, Option.map_eq_some_iff] at hfind
    obtain ⟨pending, hfind, hmoved⟩ := hfind
    constructor
    · intro h
      cases h
      exact ⟨pending, hfind, hmoved.symm⟩
    · rintro ⟨first, hfirst, rfl⟩
      rw [hfind] at hfirst
      cases hfirst
      rw [hmoved]

/-- A claim succeeds exactly when a task is pending. -/
theorem claim_ok_iff {q : Queues} {name : GoString} {entry : Queue}
    (hentry : q.queues.lookup name = some entry) :
    (∃ task, (q.call (.claim name)).1 = .task (.ok task))
      ↔ ∃ task ∈ entry.tasks, task.status = .pending := by
  rw [exists_congr (claim_answer_iff hentry)]
  constructor
  · rintro ⟨_, pending, hfind, _⟩
    exact ⟨pending, List.mem_of_find?_eq_some hfind, by simpa using List.find?_some hfind⟩
  · rintro ⟨task, hmem, hp⟩
    have hsome : (entry.tasks.find? (fun task => task.status = .pending)).isSome = true :=
      List.find?_isSome.mpr ⟨task, hmem, decide_eq_true hp⟩
    obtain ⟨pending, hfind⟩ := Option.isSome_iff_exists.mp hsome
    exact ⟨_, pending, hfind, rfl⟩

/-! ## Who is served -/

/-- **The task that a claim returns** is a pending one of the queue, started, and was
added before every other pending one. -/
theorem claim_first {calls : List Call} {name : GoString} {entry : Queue} {task : Task}
    (hentry : (system.after new calls).queues.lookup name = some entry)
    (h : system.answer new calls (.claim name) = .task (.ok task)) :
    ∃ pending ∈ entry.tasks, pending.status = .pending ∧ task = pending.moved .running
      ∧ ∀ other ∈ entry.tasks, other.status = .pending →
        other = pending ∨ [pending.id, other.id].Sublist (insertions name calls) := by
  obtain ⟨pending, hfind, rfl⟩ := (claim_answer_iff hentry task).mp h
  obtain ⟨hp, before, later, hsplit, hbefore⟩ := List.find?_eq_some_iff_append.mp hfind
  have hpending : pending ∈ entry.tasks := hsplit ▸ List.mem_append_right _ List.mem_cons_self
  refine ⟨pending, hpending, by simpa using hp, rfl, fun other hmem hother => ?_⟩
  rw [← taskIds_eq, taskIds_of_lookup hentry, hsplit, List.map_append, List.map_cons]
  rw [hsplit, List.mem_append, List.mem_cons] at hmem
  obtain hmem | rfl | hmem := hmem
  · have hnot := hbefore other hmem
    rw [hother] at hnot
    exact absurd hnot (by decide)
  · exact .inl rfl
  · refine .inr (List.Sublist.trans ?_ (List.sublist_append_right _ _))
    exact (List.singleton_sublist.mpr (List.mem_map_of_mem hmem)).cons_cons _

/-- **No pending task was added before the one that is claimed.** -/
theorem not_claimed_before {calls : List Call} {name : GoString} {task : Task} {id : ℤ}
    (h : system.answer new calls (.claim name) = .task (.ok task))
    (hpending : statusOf name id (system.after new calls) = some .pending) :
    ¬ [id, task.id].Sublist (insertions name calls) := by
  obtain ⟨entry, other, hentry, hmem, rfl, hother⟩ := exists_of_statusOf hpending
  obtain ⟨pending, _, _, rfl, hfirst⟩ := claim_first hentry h
  intro hbefore
  have hlt : other.id < pending.id := List.pairwise_pair.mp
    ((insertions_increasing calls name).sublist hbefore)
  obtain rfl | hafter := hfirst other hmem hother
  · exact lt_irrefl _ hlt
  · exact lt_asymm hlt (List.pairwise_pair.mp ((insertions_increasing calls name).sublist hafter))

section Runs

variable {q : Queues} {name : GoString} {id : ℤ}

/-- A successful `Update` moves the task. -/
theorem statusOf_of_updates (h : q.Sound) {c : Call} {status : Status}
    (hupd : Updates name id status c (q.call c).1) :
    statusOf name id (q.call c).2 = some status := by
  obtain ⟨rfl, task, hok⟩ := hupd
  have hok' : Answer.task (q.update name id status.text).1 = .task (.ok task) := hok
  show statusOf name id (q.update name id status.text).2 = _
  obtain ⟨err, heq⟩ | ⟨entry, task', status', hentry, hmem, rfl, htext, _, heq⟩ :=
    update_cases h name id status.text
  · rw [heq] at hok'
    cases hok'
  · rw [heq, statusOf_moved h hentry hmem, if_pos ⟨rfl, rfl⟩]
    rw [← Option.some.inj ((Status.ofText_eq_some.mpr rfl).symm.trans htext)]

/-- **A pending task stays pending until a claim of its queue returns it.** -/
theorem pending_or_claimed (h : q.Sound) (hs : statusOf name id q = some .pending)
    (calls : List Call) :
    statusOf name id (system.after q calls) = some .pending
      ∨ ∃ fs gs task, calls = fs ++ .claim name :: gs
        ∧ system.answer q fs (.claim name) = .task (.ok task) ∧ task.id = id := by
  obtain hstay | ⟨fs, c, gs, rfl, ⟨⟨n, task, rfl, hok, rfl⟩, _, hp⟩ | ⟨status, _, hu, _⟩⟩ :=
    first_move h hs calls
  · exact .inl hstay
  · have hsound := after_sound h fs
    obtain rfl : n = name := name_eq_of_statusOf hsound (claim_ok hsound hok).1 hp
    exact .inr ⟨fs, gs, task, rfl, hok, rfl⟩
  · obtain ⟨hc, _⟩ | ⟨hc, _⟩ := hu
    · cases hc
    · cases hc

/-- A task that starts is the one a claim of its queue returns. -/
theorem claimed_of_started (h : q.Sound) {c : Call} (hs : statusOf name id q ≠ some .running)
    (hrun : statusOf name id (q.call c).2 = some .running) :
    ∃ task, c = .claim name ∧ (q.call c).1 = .task (.ok task) ∧ task.id = id := by
  obtain heq | ⟨_, hp⟩ | ⟨⟨n, task, rfl, hok, rfl⟩, hp, _⟩ | ⟨current, status, _, hu, _, hnew⟩ :=
    call_statusOf h c name id
  · exact absurd (heq.symm.trans hrun) hs
  · rw [hrun] at hp
    cases hp
  · obtain rfl : n = name := name_eq_of_statusOf h (claim_ok h hok).1 hp
    exact ⟨task, rfl, hok, rfl⟩
  · rw [hrun] at hnew
    cases hnew
    obtain ⟨_, hc | hc⟩ | ⟨_, hc⟩ := hu
    · cases hc
    · cases hc
    · cases hc

end Runs

/-- **First in, first out, and retries at their place**, over any run of calls.

The tasks of a queue stand in the order in which they were added. A `Claim` of a queue
that is there succeeds exactly when one of its tasks is pending, and returns the pending
one that was added first. Whatever call starts a task, no task added before it to the
same queue is pending. And once a task is put back to pending, no `Claim` returns a task
added after it unless one has returned it. -/
theorem service :
    (∀ calls name entry, (system.after new calls).queues.lookup name = some entry →
      entry.tasks.map Task.id = insertions name calls
      ∧ ((∃ task, system.answer new calls (.claim name) = .task (.ok task))
        ↔ ∃ task ∈ entry.tasks, task.status = .pending)
      ∧ ∀ task, system.answer new calls (.claim name) = .task (.ok task) →
        ∃ pending ∈ entry.tasks, pending.status = .pending ∧ task = pending.moved .running
          ∧ ∀ other ∈ entry.tasks, other.status = .pending →
            other = pending ∨ [pending.id, other.id].Sublist (insertions name calls))
    ∧ (∀ calls c name id id', statusOf name id' (system.after new calls) ≠ some .running →
      statusOf name id' (system.after new (calls ++ [c])) = some .running →
      [id, id'].Sublist (insertions name calls) →
      statusOf name id (system.after new calls) ≠ some .pending)
    ∧ ∀ ds c es name id task, Updates name id .pending c (system.answer new ds c) →
      system.answer new (ds ++ c :: es) (.claim name) = .task (.ok task) →
      [id, task.id].Sublist (insertions name (ds ++ c :: es)) →
      ∃ fs gs task', es = fs ++ .claim name :: gs
        ∧ system.answer new (ds ++ c :: fs) (.claim name) = .task (.ok task') ∧ task'.id = id := by
  refine ⟨fun calls name entry hentry => ⟨?_, claim_ok_iff hentry, fun task h =>
    claim_first hentry h⟩, fun calls c name id id' hs hrun hbefore hpending => ?_, ?_⟩
  · rw [← taskIds_of_lookup hentry, taskIds_eq]
  · rw [System.after_concat] at hrun
    obtain ⟨task, rfl, hok, rfl⟩ := claimed_of_started (after_sound sound_new calls) hs hrun
    exact not_claimed_before hok hpending hbefore
  · intro ds c es name id task hretry hclaim hafter
    have hsound := after_sound sound_new ds
    have hpending := statusOf_of_updates hsound hretry
    have hrun : ∀ es, system.after new (ds ++ c :: es)
        = system.after ((system.after new ds).call c).2 es := fun es => System.after_append _ _ _ _
    obtain hstill | ⟨fs, gs, task', rfl, hok, hid⟩ :=
      pending_or_claimed (call_sound hsound c) hpending es
    · rw [← hrun] at hstill
      exact absurd hafter (not_claimed_before hclaim hstill)
    · refine ⟨fs, gs, task', rfl, ?_, hid⟩
      rw [System.answer, hrun]
      exact hok

/-- Two tasks, the first of which failed and is put back: it is served before the
second. -/
theorem service_emails :
    ∃ fs gs task', [.claim (str "emails")] = fs ++ Call.claim (str "emails") :: gs
      ∧ system.answer new ((emails ++ [.update (str "emails") 1 Status.failed.text])
          ++ .update (str "emails") 1 Status.pending.text :: fs) (.claim (str "emails"))
        = .task (.ok task') ∧ task'.id = 1 := by
  refine service.2.2 _ _ _ _ _ ⟨2, str "second", .running, 0⟩ ⟨rfl, ?_⟩ ?_ ?_
  · exact ⟨⟨1, str "premier", .pending, 0⟩, by decide⟩
  · decide
  · decide

end Queues

end WasmRedis
