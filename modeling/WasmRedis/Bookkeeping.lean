import WasmRedis.Foundation.KeyedList
import WasmRedis.Queues

/-!
# The books of the queues

A call changes the queues in one of three ways: it makes an empty queue, it adds
a pending task at the end of a queue, or it moves one task of a queue from one
status to another (`Change`); and it does so only if it does not fail
(`call_cases`).

From this follow the books. In every reachable state the counts of each queue
are the true ones, the numbers of the tasks increase along each queue, differ
from queue to queue and do not exceed the last one given (`Sound`). No call
removes a task, nor changes its place, its number or its payload, and none
touches another queue than its own (`bookkeeping`).
-/

namespace WasmRedis

open GoString

/-! ## Statuses -/

namespace Status

/-- The moves `Update` allows. -/
def Updates (current status : Status) : Prop :=
  current = running ∧ (status = completed ∨ status = failed) ∨ current = failed ∧ status = pending

instance (current status : Status) : Decidable (Updates current status) :=
  inferInstanceAs (Decidable (_ ∨ _))

/-- **The life of a task.** -/
inductive Moves : Status → Status → Prop where
  /-- A pending task is claimed. -/
  | start : Moves pending running
  /-- A running task is completed. -/
  | complete : Moves running completed
  /-- A running task fails. -/
  | fail : Moves running failed
  /-- A failed task is put back. -/
  | retry : Moves failed pending

theorem Updates.moves {current status : Status} (h : Updates current status) :
    Moves current status := by
  obtain ⟨rfl, rfl | rfl⟩ | ⟨rfl, rfl⟩ := h
  · exact Moves.complete
  · exact Moves.fail
  · exact Moves.retry

theorem Moves.ne {current status : Status} (h : Moves current status) : current ≠ status := by
  cases h <;> decide

end Status

/-! ## Moving a task -/

/-- The task with another status. -/
def Task.moved (status : Status) (task : Task) : Task := { task with status := status }

/-- What never changes of a task. -/
def Task.identity (task : Task) : ℤ × GoString × Time := (task.id, task.payload, task.createdAt)

/-- The queue with one task moved, and counted anew. -/
def Queue.moved (entry : Queue) (task : Task) (status : Status) : Queue where
  tasks := KeyedList.change Task.id task.id (Task.moved status) entry.tasks
  counts := bump status 1 (bump task.status (-1) entry.counts)

/-- The queue with a task added. -/
def Queue.added (entry : Queue) (task : Task) : Queue where
  tasks := entry.tasks ++ [task]
  counts := bump .pending 1 entry.counts

namespace Queues

/-- The loop of `Claim` moves the first pending task. -/
theorem claimTask_cases {tasks : List Task} (h : (tasks.map Task.id).Nodup) :
    (claimTask tasks = none ∧ ∀ task ∈ tasks, task.status ≠ .pending)
      ∨ ∃ task ∈ tasks, task.status = .pending
        ∧ claimTask tasks = some (task.moved .running,
            KeyedList.change Task.id task.id (Task.moved .running) tasks) := by
  induction tasks with
  | nil => exact Or.inl ⟨rfl, nofun⟩
  | cons first tasks ih =>
    rw [List.map_cons, List.nodup_cons] at h
    unfold claimTask
    by_cases hp : first.status = .pending
    · refine Or.inr ⟨first, List.mem_cons_self, hp, ?_⟩
      rw [if_pos hp, KeyedList.change_cons_self h.1]
      rfl
    rw [if_neg hp]
    obtain ⟨hnone, hall⟩ | ⟨task, hmem, hpending, hsome⟩ := ih h.2
    · rw [hnone]
      exact Or.inl ⟨rfl, List.forall_mem_cons.mpr ⟨hp, hall⟩⟩
    · have hne : first.id ≠ task.id := fun hid => h.1 (hid ▸ List.mem_map_of_mem hmem)
      refine Or.inr ⟨task, List.mem_cons_of_mem _ hmem, hpending, ?_⟩
      rw [hsome, KeyedList.change_cons_of_ne hne]

/-- The loop of `Update` finds no task with the number, or moves it if it may. -/
theorem updateTask_cases {tasks : List Task} (h : (tasks.map Task.id).Nodup) (id : ℤ)
    (status : Status) :
    (updateTask id status tasks = .error .notFound ∧ ∀ task ∈ tasks, task.id ≠ id)
      ∨ ∃ task ∈ tasks, task.id = id ∧ updateTask id status tasks =
          if task.status.Updates status then
            .ok (task.status, task.moved status,
              KeyedList.change Task.id task.id (Task.moved status) tasks)
          else .error .conflict := by
  induction tasks with
  | nil => exact Or.inl ⟨rfl, nofun⟩
  | cons first tasks ih =>
    rw [List.map_cons, List.nodup_cons] at h
    unfold updateTask
    by_cases hid : first.id = id
    · refine Or.inr ⟨first, List.mem_cons_self, hid, ?_⟩
      rw [if_neg (not_not.mpr hid), KeyedList.change_cons_self h.1]
      by_cases hu : first.status.Updates status
      · rw [if_pos hu]
        exact if_neg (not_not.mpr hu)
      · rw [if_neg hu]
        exact if_pos hu
    rw [if_pos hid]
    obtain ⟨hnone, hall⟩ | ⟨task, hmem, htask, heq⟩ := ih h.2
    · rw [hnone]
      exact Or.inl ⟨rfl, List.forall_mem_cons.mpr ⟨hid, hall⟩⟩
    · have hne : first.id ≠ task.id := fun hk => h.1 (hk ▸ List.mem_map_of_mem hmem)
      refine Or.inr ⟨task, List.mem_cons_of_mem _ hmem, htask, ?_⟩
      rw [heq, KeyedList.change_cons_of_ne hne]
      by_cases hu : task.status.Updates status
      · rw [if_pos hu, if_pos hu]
      · rw [if_neg hu, if_neg hu]

/-! ## The invariant -/

/-- The counts of a queue are the true ones. -/
def Tallied (entry : Queue) : Prop :=
  ∀ status, entry.counts.lookup status
    = some (entry.tasks.countP (fun task => task.status = status) : ℤ)

/-- **The books are right.** -/
structure Sound (q : Queues) : Prop where
  /-- The counts are the true ones. -/
  tallied : ∀ name entry, q.queues.lookup name = some entry → Tallied entry
  /-- The numbers increase along every queue. -/
  increasing : ∀ name entry, q.queues.lookup name = some entry →
    (entry.tasks.map Task.id).Pairwise (· < ·)
  /-- They do not exceed the last one given. -/
  bounded : ∀ name entry, q.queues.lookup name = some entry →
    ∀ id ∈ entry.tasks.map Task.id, id ≤ q.nextID
  /-- Two queues share none. -/
  disjoint : ∀ name name' entry entry', q.queues.lookup name = some entry →
    q.queues.lookup name' = some entry' → name ≠ name' →
    List.Disjoint (entry.tasks.map Task.id) (entry'.tasks.map Task.id)

theorem Sound.nodup {q : Queues} (h : q.Sound) {name : GoString} {entry : Queue}
    (hentry : q.queues.lookup name = some entry) : (entry.tasks.map Task.id).Nodup :=
  (h.increasing name entry hentry).imp (fun hlt => ne_of_lt hlt)

theorem sound_new : new.Sound where
  tallied name entry h := by
    rw [show new.queues = ∅ from rfl, Finmap.lookup_empty] at h
    cases h
  increasing name entry h := by
    rw [show new.queues = ∅ from rfl, Finmap.lookup_empty] at h
    cases h
  bounded name entry h := by
    rw [show new.queues = ∅ from rfl, Finmap.lookup_empty] at h
    cases h
  disjoint name name' entry entry' h := by
    rw [show new.queues = ∅ from rfl, Finmap.lookup_empty] at h
    cases h

/-! ## What a call can change -/

/-- **One change of the queue with a name.** -/
inductive Change (q : Queues) (name : GoString) : Queues → Prop where
  /-- It is made. -/
  | create : q.queues.lookup name = none →
      Change q name { q with queues := q.queues.insert name emptyQueue }
  /-- A pending task with a new number is added at its end. -/
  | add (entry : Queue) (task : Task) : q.queues.lookup name = some entry →
      task.id = q.nextID + 1 → task.status = .pending →
      Change q name { queues := q.queues.insert name (entry.added task), nextID := q.nextID + 1 }
  /-- One of its tasks is moved. -/
  | move (entry : Queue) (task : Task) (status : Status) : q.queues.lookup name = some entry →
      task ∈ entry.tasks → task.status.Moves status →
      Change q name { q with queues := q.queues.insert name (entry.moved task status) }

theorem lookup_bump (status status' : Status) (n : ℤ) (counts : GoMap Status ℤ) :
    (bump status n counts).lookup status'
      = if status' = status then some ((counts.lookup status).getD 0 + n)
        else counts.lookup status' := by
  unfold bump
  by_cases h : status' = status
  · rw [if_pos h, h, Finmap.lookup_insert]
  · rw [if_neg h, Finmap.lookup_insert_of_ne _ h]

theorem tallied_empty : Tallied emptyQueue := by
  intro status
  cases status <;> rfl

theorem Tallied.added {entry : Queue} (h : Tallied entry) {task : Task}
    (htask : task.status = .pending) : Tallied (entry.added task) := by
  intro status
  show (bump .pending 1 entry.counts).lookup status
    = some ((entry.tasks ++ [task]).countP (fun task => task.status = status) : ℤ)
  rw [lookup_bump, h .pending, List.countP_append, List.countP_singleton, htask]
  by_cases hs : status = .pending
  · simp [hs]
  · simp [hs, h status, Ne.symm hs]

theorem Tallied.moved {entry : Queue} (h : Tallied entry) (hids : (entry.tasks.map Task.id).Nodup)
    {task : Task} (hmem : task ∈ entry.tasks) {status : Status} (hne : task.status ≠ status) :
    Tallied (entry.moved task status) := by
  intro status'
  have hcount := KeyedList.countP_change (f := Task.moved status) hids hmem
    (fun task => task.status = status')
  show (bump status 1 (bump task.status (-1) entry.counts)).lookup status'
    = some ((KeyedList.change Task.id task.id (Task.moved status) entry.tasks).countP
        (fun task => task.status = status') : ℤ)
  rw [lookup_bump, lookup_bump, lookup_bump, h, h, h, if_neg hne.symm]
  generalize (KeyedList.change Task.id task.id (Task.moved status) entry.tasks).countP _ = after
    at hcount ⊢
  have hmoved : (task.moved status).status = status := rfl
  rw [hmoved] at hcount
  by_cases hs : status' = status
  · subst hs
    rw [if_pos rfl, Option.getD_some]
    simp [hne] at hcount
    simp [hcount]
  · rw [if_neg hs]
    by_cases hs' : status' = task.status
    · subst hs'
      rw [if_pos rfl, Option.getD_some]
      simp [Ne.symm hne] at hcount
      rw [← hcount]
      simp
    · rw [if_neg hs']
      simp [Ne.symm hs, Ne.symm hs'] at hcount
      rw [hcount]

theorem ids_moved (entry : Queue) (task : Task) (status : Status) :
    (entry.moved task status).tasks.map Task.id = entry.tasks.map Task.id :=
  KeyedList.map_change (f := Task.moved status) (fun _ => rfl) task.id entry.tasks

theorem ids_added (entry : Queue) (task : Task) :
    (entry.added task).tasks.map Task.id = entry.tasks.map Task.id ++ [task.id] :=
  List.map_append

/-- **A queue is put under a name**: the books stay right if its own are, and each
of its numbers was that of a task of this queue or is new. -/
theorem Sound.insert {q : Queues} (h : q.Sound) {name : GoString} {entry : Queue} {nextID : ℤ}
    (htallied : Tallied entry) (hinc : (entry.tasks.map Task.id).Pairwise (· < ·))
    (hnext : q.nextID ≤ nextID)
    (hids : ∀ id ∈ entry.tasks.map Task.id, id ≤ nextID
      ∧ (q.nextID < id ∨ ∃ e, q.queues.lookup name = some e ∧ id ∈ e.tasks.map Task.id)) :
    Sound { queues := q.queues.insert name entry, nextID := nextID } := by
  -- the new queue shares no number with another one
  have hnew : ∀ n e, n ≠ name → q.queues.lookup n = some e →
      List.Disjoint (entry.tasks.map Task.id) (e.tasks.map Task.id) := by
    intro n e hn he id hid hid'
    obtain hlt | ⟨e₀, he₀, hid₀⟩ := (hids id hid).2
    · exact absurd (h.bounded n e he id hid') (not_le.mpr hlt)
    · exact h.disjoint name n e₀ e he₀ he hn.symm hid₀ hid'
  refine ⟨fun n e he => ?_, fun n e he => ?_, fun n e he id hid => ?_,
    fun n n' e e' he he' hne => ?_⟩
  · obtain ⟨rfl, rfl⟩ | ⟨_, he⟩ := GoMap.lookup_insert_eq_some.mp he
    · exact htallied
    · exact h.tallied n e he
  · obtain ⟨rfl, rfl⟩ | ⟨_, he⟩ := GoMap.lookup_insert_eq_some.mp he
    · exact hinc
    · exact h.increasing n e he
  · obtain ⟨rfl, rfl⟩ | ⟨_, he⟩ := GoMap.lookup_insert_eq_some.mp he
    · exact (hids id hid).1
    · exact (h.bounded n e he id hid).trans hnext
  · obtain ⟨rfl, rfl⟩ | ⟨hn, hold⟩ := GoMap.lookup_insert_eq_some.mp he
    · obtain ⟨rfl, _⟩ | ⟨hn', hold'⟩ := GoMap.lookup_insert_eq_some.mp he'
      · exact absurd rfl hne
      · exact hnew n' e' hn' hold'
    · obtain ⟨rfl, rfl⟩ | ⟨_, hold'⟩ := GoMap.lookup_insert_eq_some.mp he'
      · exact (hnew n e hn hold).symm
      · exact h.disjoint n n' e e' hold hold' hne

/-- **A change keeps the books right.** -/
theorem Change.sound {q q' : Queues} {name : GoString} (hchange : Change q name q')
    (h : q.Sound) : q'.Sound := by
  cases hchange with
  | create hnone => exact h.insert tallied_empty List.Pairwise.nil le_rfl nofun
  | add entry task hentry hid hpending =>
    have hlt : q.nextID < q.nextID + 1 := Int.lt_succ _
    refine h.insert ((h.tallied name entry hentry).added hpending) ?_ hlt.le (fun id hmem => ?_)
    · rw [ids_added, List.pairwise_append]
      refine ⟨h.increasing name entry hentry, List.pairwise_singleton _ _, fun a ha b hb => ?_⟩
      rw [List.mem_singleton.mp hb, hid]
      exact (h.bounded name entry hentry a ha).trans_lt hlt
    · rw [ids_added] at hmem
      obtain hmem | hmem := List.mem_append.mp hmem
      · exact ⟨(h.bounded name entry hentry id hmem).trans hlt.le, Or.inr ⟨entry, hentry, hmem⟩⟩
      · rw [List.mem_singleton.mp hmem, hid]
        exact ⟨le_rfl, Or.inl hlt⟩
  | move entry task status hentry hmem hmoves =>
    refine h.insert ((h.tallied name entry hentry).moved (h.nodup hentry) hmem hmoves.ne) ?_ le_rfl
      (fun id hid => ?_)
    · rw [ids_moved]
      exact h.increasing name entry hentry
    · rw [ids_moved] at hid
      exact ⟨h.bounded name entry hentry id hid, Or.inr ⟨entry, hentry, hid⟩⟩

/-- A change concerns one queue. -/
theorem Change.frame {q q' : Queues} {name : GoString} (h : Change q name q') {n : GoString}
    (hn : n ≠ name) : q'.queues.lookup n = q.queues.lookup n := by
  cases h with
  | create _ => exact Finmap.lookup_insert_of_ne _ hn
  | add entry task _ _ _ => exact Finmap.lookup_insert_of_ne _ hn
  | move entry task status _ _ _ => exact Finmap.lookup_insert_of_ne _ hn

/-- **A change keeps the tasks** of every queue, in their order. -/
theorem Change.kept {q q' : Queues} {name : GoString} (h : Change q name q') {n : GoString}
    {e : Queue} (he : q.queues.lookup n = some e) :
    ∃ e', q'.queues.lookup n = some e'
      ∧ e.tasks.map Task.identity <+: e'.tasks.map Task.identity := by
  by_cases hn : n = name
  · subst hn
    cases h with
    | create hnone =>
      rw [hnone] at he
      cases he
    | add entry task hentry _ _ =>
      obtain rfl := Option.some.inj (hentry.symm.trans he)
      refine ⟨_, Finmap.lookup_insert _, ?_⟩
      rw [show (entry.added task).tasks = entry.tasks ++ [task] from rfl, List.map_append]
      exact List.prefix_append _ _
    | move entry task status hentry _ _ =>
      obtain rfl := Option.some.inj (hentry.symm.trans he)
      refine ⟨_, Finmap.lookup_insert _, ?_⟩
      have hmap : (entry.moved task status).tasks.map Task.identity
          = entry.tasks.map Task.identity :=
        KeyedList.map_change (f := Task.moved status) (fun _ => rfl) task.id entry.tasks
      rw [hmap]
  · exact ⟨e, (h.frame hn).trans he, List.prefix_rfl⟩

/-! ## The operations -/

theorem create_cases (q : Queues) (name : GoString) :
    (∃ err, q.create name = (some err, q))
      ∨ q.queues.lookup name = none ∧ q.create name
        = (none, { q with queues := q.queues.insert name emptyQueue }) := by
  unfold create
  split_ifs with hname
  · exact Or.inl ⟨_, rfl⟩
  · cases hentry : q.queues.lookup name with
    | some entry => exact Or.inl ⟨_, rfl⟩
    | none => exact Or.inr ⟨rfl, rfl⟩

theorem add_cases (q : Queues) (name payload : GoString) (now : Time) :
    (∃ err, q.add name payload now = (.error err, q))
      ∨ ∃ entry task, q.queues.lookup name = some entry ∧ task.id = q.nextID + 1
        ∧ task.status = .pending
        ∧ q.add name payload now
          = (.ok task, ⟨q.queues.insert name (entry.added task), q.nextID + 1⟩) := by
  unfold add
  split_ifs with hpayload
  · exact Or.inl ⟨_, rfl⟩
  · cases hentry : q.queues.lookup name with
    | none => exact Or.inl ⟨_, rfl⟩
    | some entry => exact Or.inr ⟨entry, _, rfl, rfl, rfl, rfl⟩

/-- **What `Claim` can do**: fail, or start a pending task. -/
theorem claim_cases {q : Queues} (h : q.Sound) (name : GoString) :
    (∃ err, q.claim name = (.error err, q))
      ∨ ∃ entry task, q.queues.lookup name = some entry ∧ task ∈ entry.tasks
        ∧ task.status = .pending
        ∧ q.claim name = (.ok (task.moved .running),
            { q with queues := q.queues.insert name (entry.moved task .running) }) := by
  unfold claim
  cases hentry : q.queues.lookup name with
  | none => exact Or.inl ⟨_, rfl⟩
  | some entry =>
    dsimp only
    obtain ⟨hnone, _⟩ | ⟨task, hmem, hpending, hsome⟩ := claimTask_cases (h.nodup hentry)
    · rw [hnone]
      exact Or.inl ⟨_, rfl⟩
    · rw [hsome]
      refine Or.inr ⟨entry, task, rfl, hmem, hpending, ?_⟩
      rw [Queue.moved, hpending]

/-- **What `Update` can do** to the task with a number, where there is one. -/
theorem update_of_mem {q : Queues} (h : q.Sound) {name : GoString} {entry : Queue}
    (hentry : q.queues.lookup name = some entry) {task : Task} (hmem : task ∈ entry.tasks)
    {text : GoString} {status : Status} (htext : Status.ofText text = some status) :
    q.update name task.id text =
      if task.status.Updates status then
        (.ok (task.moved status),
          { q with queues := q.queues.insert name (entry.moved task status) })
      else (.error .conflict, q) := by
  unfold update
  rw [htext, hentry]
  dsimp only
  obtain ⟨_, hall⟩ | ⟨task', hmem', hid, heq⟩ :=
    updateTask_cases (h.nodup hentry) task.id status
  · exact absurd rfl (hall task hmem)
  · have htask : task' = task := List.inj_on_of_nodup_map (h.nodup hentry) hmem' hmem hid
    subst htask
    rw [heq]
    by_cases hu : task'.status.Updates status
    · rw [if_pos hu, if_pos hu]
      rfl
    · rw [if_neg hu, if_neg hu]

/-- What `Update` can do: fail, or move a task. -/
theorem update_cases {q : Queues} (h : q.Sound) (name : GoString) (id : ℤ) (text : GoString) :
    (∃ err, q.update name id text = (.error err, q))
      ∨ ∃ entry task status, q.queues.lookup name = some entry ∧ task ∈ entry.tasks
        ∧ task.id = id ∧ Status.ofText text = some status ∧ task.status.Updates status
        ∧ q.update name id text = (.ok (task.moved status),
            { q with queues := q.queues.insert name (entry.moved task status) }) := by
  cases htext : Status.ofText text with
  | none =>
    refine Or.inl ⟨.invalid, ?_⟩
    unfold update
    rw [htext]
  | some status =>
    cases hentry : q.queues.lookup name with
    | none =>
      refine Or.inl ⟨.notFound, ?_⟩
      unfold update
      rw [htext, hentry]
    | some entry =>
      obtain ⟨hnone, _⟩ | ⟨task, hmem, rfl, _⟩ := updateTask_cases (h.nodup hentry) id status
      · refine Or.inl ⟨.notFound, ?_⟩
        unfold update
        rw [htext, hentry]
        dsimp only
        rw [hnone]
      · rw [update_of_mem h hentry hmem htext]
        by_cases hu : task.status.Updates status
        · rw [if_pos hu]
          exact Or.inr ⟨entry, task, status, rfl, hmem, rfl, rfl, hu, rfl⟩
        · rw [if_neg hu]
          exact Or.inl ⟨_, rfl⟩

/-- **What a call can do**: its answer, and what it makes of the queues. -/
inductive Effect (q : Queues) : Call → Answer → Queues → Prop where
  /-- It reads, or fails. -/
  | kept {c : Call} {answer : Answer} (hanswer : ∀ task, answer ≠ .task (.ok task)) :
      Effect q c answer q
  /-- It makes a queue. -/
  | created {name : GoString} (hnone : q.queues.lookup name = none) :
      Effect q (.create name) (.error none)
        { q with queues := q.queues.insert name emptyQueue }
  /-- It adds a task. -/
  | added {name payload : GoString} {now : Time} {entry : Queue} {task : Task}
      (hentry : q.queues.lookup name = some entry) (hid : task.id = q.nextID + 1)
      (hp : task.status = .pending) :
      Effect q (.add name payload now) (.task (.ok task))
        ⟨q.queues.insert name (entry.added task), q.nextID + 1⟩
  /-- It starts a task. -/
  | claimed {name : GoString} {entry : Queue} {task : Task}
      (hentry : q.queues.lookup name = some entry) (hmem : task ∈ entry.tasks)
      (hp : task.status = .pending) :
      Effect q (.claim name) (.task (.ok (task.moved .running)))
        { q with queues := q.queues.insert name (entry.moved task .running) }
  /-- It moves a task. -/
  | updated {name text : GoString} {entry : Queue} {task : Task} {status : Status}
      (hentry : q.queues.lookup name = some entry) (hmem : task ∈ entry.tasks)
      (htext : Status.ofText text = some status) (hu : task.status.Updates status) :
      Effect q (.update name task.id text) (.task (.ok (task.moved status)))
        { q with queues := q.queues.insert name (entry.moved task status) }

/-- **Every call does one of these.** -/
theorem call_effect {q : Queues} (h : q.Sound) (c : Call) :
    Effect q c (q.call c).1 (q.call c).2 := by
  cases c with
  | create name =>
    show Effect q (.create name) (.error (q.create name).1) (q.create name).2
    obtain ⟨err, heq⟩ | ⟨hnone, heq⟩ := create_cases q name
    · rw [heq]
      exact .kept (fun task => by simp)
    · rw [heq]
      exact .created hnone
  | list r => exact .kept (fun task => by simp [call])
  | add name payload now =>
    show Effect q (.add name payload now) (.task (q.add name payload now).1)
      (q.add name payload now).2
    obtain ⟨err, heq⟩ | ⟨entry, task, hentry, hid, hp, heq⟩ := add_cases q name payload now
    · rw [heq]
      exact .kept (fun task => by simp)
    · rw [heq]
      exact .added hentry hid hp
  | page name status offset limit => exact .kept (fun task => by simp [call])
  | claim name =>
    show Effect q (.claim name) (.task (q.claim name).1) (q.claim name).2
    obtain ⟨err, heq⟩ | ⟨entry, task, hentry, hmem, hp, heq⟩ := claim_cases h name
    · rw [heq]
      exact .kept (fun task => by simp)
    · rw [heq]
      exact .claimed hentry hmem hp
  | update name id text =>
    show Effect q (.update name id text) (.task (q.update name id text).1)
      (q.update name id text).2
    obtain ⟨err, heq⟩ | ⟨entry, task, status, hentry, hmem, rfl, htext, hu, heq⟩ :=
      update_cases h name id text
    · rw [heq]
      exact .kept (fun task => by simp)
    · rw [heq]
      exact .updated hentry hmem htext hu

theorem not_failed_ok (task : Task) : ¬ (Answer.task (.ok task)).Failed := by
  rintro ⟨err, h⟩
  cases h

/-- **What a call can change**: nothing, or its own queue, if it does not fail. -/
theorem call_cases {q : Queues} (h : q.Sound) (c : Call) :
    (q.call c).2 = q ∨ ¬ (q.call c).1.Failed
      ∧ ∃ name, c.queue = some name ∧ Change q name (q.call c).2 := by
  have heffect := call_effect h c
  generalize q.call c = r at heffect
  obtain ⟨answer, q'⟩ := r
  dsimp only at heffect ⊢
  cases heffect with
  | kept _ => exact Or.inl rfl
  | created hnone => exact Or.inr ⟨fun hf => hf rfl, _, rfl, .create hnone⟩
  | added hentry hid hp => exact Or.inr ⟨not_failed_ok _, _, rfl, .add _ _ hentry hid hp⟩
  | claimed hentry hmem hp =>
    exact Or.inr ⟨not_failed_ok _, _, rfl, .move _ _ _ hentry hmem (hp ▸ .start)⟩
  | updated hentry hmem _ hu =>
    exact Or.inr ⟨not_failed_ok _, _, rfl, .move _ _ _ hentry hmem hu.moves⟩

/-- Every call keeps the books right. -/
theorem call_sound {q : Queues} (h : q.Sound) (c : Call) : (q.call c).2.Sound := by
  obtain heq | ⟨_, name, _, hchange⟩ := call_cases h c
  · rwa [heq]
  · exact hchange.sound h

/-! ## What List reports -/

/-- `List` says of every queue what it holds, in any order of the loop. -/
theorem mem_list (r : RangeOrder GoString) (q : Queues) (summary : QueueSummary) :
    summary ∈ q.list r ↔ ∃ entry, q.queues.lookup summary.name = some entry
      ∧ summary.total = entry.tasks.length ∧ summary.counts = entry.counts := by
  have hloop : ∀ s : QueueSummary, s ∈ GoMap.rangeFold r q.queues [] (fun result name entry =>
      result ++ [({ name := name, total := entry.tasks.length, counts := entry.counts } :
        QueueSummary)]) ↔ s.name ∈ r.list q.queues.keys
          ∧ ∃ entry, q.queues.lookup s.name = some entry
            ∧ s.total = entry.tasks.length ∧ s.counts = entry.counts := by
    refine GoMap.rangeFold_induction r q.queues
      (P := fun done (result : List QueueSummary) => ∀ s, s ∈ result ↔ s.name ∈ done
        ∧ ∃ entry, q.queues.lookup s.name = some entry
          ∧ s.total = entry.tasks.length ∧ s.counts = entry.counts) (fun s => by simp)
      (fun done name entry result _ hentry hP s => ?_)
    rw [List.mem_append, hP, List.mem_append, List.mem_singleton, List.mem_singleton]
    constructor
    · rintro (⟨hd, hs⟩ | rfl)
      · exact ⟨Or.inl hd, hs⟩
      · exact ⟨Or.inr rfl, entry, hentry, rfl, rfl⟩
    · rintro ⟨hd | rfl, hs⟩
      · exact Or.inl ⟨hd, hs⟩
      · obtain ⟨entry', hentry', htotal, hcounts⟩ := hs
        obtain rfl := Option.some.inj (hentry.symm.trans hentry')
        rw [← htotal, ← hcounts]
        exact Or.inr rfl
  unfold list
  rw [List.mem_insertionSort, hloop]
  refine ⟨fun h => h.2, fun h => ⟨?_, h⟩⟩
  obtain ⟨entry, hentry, _⟩ := h
  exact (GoMap.mem_order r q.queues summary.name).mpr ⟨entry, hentry⟩

/-- Every task has one of the four statuses. -/
theorem countP_statuses (tasks : List Task) :
    tasks.countP (fun task => task.status = .pending)
        + tasks.countP (fun task => task.status = .running)
        + tasks.countP (fun task => task.status = .completed)
        + tasks.countP (fun task => task.status = .failed) = tasks.length := by
  induction tasks with
  | nil => rfl
  | cons task tasks ih =>
    simp only [List.countP_cons, List.length_cons]
    cases task.status <;> simp <;> omega

/-! ## Runs -/

/-- The queues are what some calls have made of `NewQueues()`. -/
def Reachable (q : Queues) : Prop := ∃ calls, q = system.after new calls

theorem Reachable.sound {q : Queues} (h : q.Reachable) : q.Sound := by
  obtain ⟨calls, rfl⟩ := h
  exact (admits_system new calls).invariant sound_new (fun _ c _ hs => call_sound hs c)

/-- Over a run, a queue keeps its tasks. -/
theorem Sound.kept {q : Queues} (h : q.Sound) (calls : List Call) {name : GoString}
    {entry : Queue} (hentry : q.queues.lookup name = some entry) :
    ∃ entry', (system.after q calls).queues.lookup name = some entry'
      ∧ entry.tasks.map Task.identity <+: entry'.tasks.map Task.identity := by
  refine ((admits_system q calls).invariant (I := fun q' => q'.Sound
    ∧ ∃ entry', q'.queues.lookup name = some entry'
      ∧ entry.tasks.map Task.identity <+: entry'.tasks.map Task.identity)
    ⟨h, entry, hentry, List.prefix_rfl⟩ (fun q' c _ hq' => ?_)).2
  obtain ⟨hsound, e, he, hprefix⟩ := hq'
  refine ⟨call_sound hsound c, ?_⟩
  show ∃ entry', (q'.call c).2.queues.lookup name = some entry' ∧ _
  obtain heq | ⟨_, n, _, hchange⟩ := call_cases hsound c
  · rw [heq]
    exact ⟨e, he, hprefix⟩
  · obtain ⟨e', he', hkept⟩ := hchange.kept he
    exact ⟨e', he', hprefix.trans hkept⟩

/-- **The books of the queues.** In every reachable state, for every queue, each
count is the number of its tasks with that status, so that the four add up to
the number of its tasks, as `List` reports; the numbers of the tasks increase
along the queue, do not exceed the last one given, and no other queue has any of
them. Every call leaves the queues but its own as they are, and all of them, with
the last number given, if it fails. And after any further calls the queue has
the tasks it had, in the same places, with the same numbers and payloads. -/
theorem bookkeeping {q : Queues} (h : q.Reachable) :
    (∀ name entry, q.queues.lookup name = some entry →
      (∀ status, entry.counts.lookup status
        = some (entry.tasks.countP (fun task => task.status = status) : ℤ))
      ∧ (entry.counts.lookup .pending).getD 0 + (entry.counts.lookup .running).getD 0
        + (entry.counts.lookup .completed).getD 0 + (entry.counts.lookup .failed).getD 0
          = entry.tasks.length
      ∧ (entry.tasks.map Task.id).Pairwise (· < ·)
      ∧ ∀ task ∈ entry.tasks, task.id ≤ q.nextID)
    ∧ (∀ r summary, summary ∈ q.list r ↔ ∃ entry, q.queues.lookup summary.name = some entry
      ∧ summary.total = entry.tasks.length ∧ summary.counts = entry.counts)
    ∧ (∀ name name' entry entry' task task', q.queues.lookup name = some entry →
      q.queues.lookup name' = some entry' → task ∈ entry.tasks → task' ∈ entry'.tasks →
      task.id = task'.id → name = name' ∧ task = task')
    ∧ (∀ c : Call, (∀ name, c.queue ≠ some name →
        (q.call c).2.queues.lookup name = q.queues.lookup name)
      ∧ ((q.call c).1.Failed → (q.call c).2 = q))
    ∧ ∀ calls name entry, q.queues.lookup name = some entry →
      ∃ entry', (system.after q calls).queues.lookup name = some entry'
        ∧ entry.tasks.map Task.identity <+: entry'.tasks.map Task.identity := by
  have hs := h.sound
  refine ⟨fun name entry hentry => ⟨hs.tallied name entry hentry, ?_,
      hs.increasing name entry hentry,
      fun task htask => hs.bounded name entry hentry _ (List.mem_map_of_mem htask)⟩,
    fun r summary => mem_list r q summary, ?_, fun c => ⟨fun name hname => ?_, fun hfail => ?_⟩,
    fun calls name entry hentry => hs.kept calls hentry⟩
  · have htallied := hs.tallied name entry hentry
    rw [htallied, htallied, htallied, htallied, ← countP_statuses entry.tasks]
    simp
  · intro name name' entry entry' task task' hentry hentry' htask htask' hid
    by_cases hname : name = name'
    · subst hname
      rw [hentry] at hentry'
      cases hentry'
      exact ⟨rfl, List.inj_on_of_nodup_map (hs.nodup hentry) htask htask' hid⟩
    · exact absurd (hid ▸ List.mem_map_of_mem htask')
        (hs.disjoint name name' entry entry' hentry hentry' hname (List.mem_map_of_mem htask))
  · obtain heq | ⟨_, n, hn, hchange⟩ := call_cases hs c
    · rw [heq]
    · exact hchange.frame (fun heq => hname (heq ▸ hn))
  · obtain heq | ⟨hok, _⟩ := call_cases hs c
    · exact heq
    · exact absurd hfail hok

/-- A queue with two tasks, the first of which is running. -/
def emails : List Call :=
  [.create (str "emails"), .add (str "emails") (str "premier") 0,
    .add (str "emails") (str "second") 0, .claim (str "emails")]

/-- A task that is not running cannot be completed, and the attempt changes
nothing. -/
theorem bookkeeping_emails :
    ((system.after new emails).call (.update (str "emails") 2 (str "completed"))).2
      = system.after new emails :=
  ((bookkeeping ⟨emails, rfl⟩).2.2.2.1 _).2 ⟨.conflict, by decide⟩

end Queues

end WasmRedis
