import WasmRedis.Bookkeeping
import WasmRedis.Foundation.Loops
import WasmRedis.Foundation.Strconv

/-!
# The queues of the demonstration

`seedDemo` makes three queues of any number of tasks: it adds the tasks, starts the
first thirty, and ends the first twenty-five of these, every fifth with an error.
Each round of its loops asks the queues for something, and any of them might refuse.

`seedDemo_eq` says that none does, for every number of tasks, and what there is in the
end, task by task and status by status. The invariants of the loops describe the tasks
of one queue by how many rounds have been made.
-/

namespace WasmRedis

open GoString Loop

namespace Queues

/-! ## The code -/

/-- `%04d`. -/
def pad4 (n : ℕ) : GoString :=
  List.replicate (4 - (Strconv.decimal n).length) 48 ++ Strconv.decimal n

/-- `fmt.Sprintf("Tâche %s %04d", name, i+1)`. -/
def demoPayload (name : GoString) (i : ℕ) : GoString :=
  str "Tâche " ++ name ++ str " " ++ pad4 (i + 1)

/-- The loop that adds the tasks. -/
def addDemo (name : GoString) (now : ℕ → Time) (i : ℕ) (q : Queues) : Option Err × Queues :=
  match q.add name (demoPayload name i) (now i) with
  | (.error err, q) => (some err, q)
  | (.ok _, q) => (none, q)

/-- The loop that starts some of them. -/
def claimDemo (name : GoString) (i : ℕ) (q : Queues) : Option Err × Queues :=
  match q.claim name with
  | (.error err, q) => (some err, q)
  | (.ok task, q) =>
    if i < 25 then
      let status := if i % 5 = 0 then Status.failed.text else Status.completed.text
      match q.update name task.id status with
      | (.error err, q) => (some err, q)
      | (.ok _, q) => (none, q)
    else (none, q)

/-- One queue. -/
def seedQueue (tasks : ℤ) (now : GoString → ℕ → Time) (name : GoString) (q : Queues) :
    Option Err × Queues :=
  match q.create name with
  | (some err, q) => (some err, q)
  | (none, q) =>
    match forRange (addDemo name (now name)) tasks q with
    | (some err, q) => (some err, q)
    | (none, q) =>
      let claims := if 30 > tasks then tasks else 30
      forRange (claimDemo name) claims q

/-- The names of the queues. -/
def demoNames : List GoString := [str "emails", str "images", str "exports"]

/-- `seedDemo(q, tasks)`. -/
def seedDemo (q : Queues) (tasks : ℤ) (now : GoString → ℕ → Time) : Option Err × Queues :=
  forEach (seedQueue tasks now) demoNames q

/-! ## What it makes -/

/-- How a task ends. -/
def demoStatus (i : ℕ) : Status :=
  if i < 25 then (if i % 5 = 0 then .failed else .completed)
  else if i < 30 then .running
  else .pending

/-- A task of a queue, when the first `claims` have been started and ended. -/
def demoTask (name : GoString) (now : ℕ → Time) (base : ℤ) (claims i : ℕ) : Task where
  id := base + (i + 1 : ℕ)
  payload := demoPayload name i
  status := if i < claims then demoStatus i else .pending
  createdAt := now i

/-- The tasks of a queue. -/
def demoTasks (name : GoString) (now : ℕ → Time) (base : ℤ) (claims n : ℕ) : List Task :=
  (List.range n).map (demoTask name now base claims)

/-! ## One queue -/

/-- One queue is put, and some numbers are given. -/
def Holding (q : Queues) (name : GoString) (tasks : List Task) (added : ℕ) (q' : Queues) : Prop :=
  ∃ counts, q' = { queues := q.queues.insert name ⟨tasks, counts⟩, nextID := q.nextID + added }

section Queue

variable {q q' : Queues} {name : GoString} {before after : List Task} {task : Task} {added : ℕ}

theorem Holding.add {tasks : List Task} (h : Holding q name tasks added q') {payload : GoString}
    (hblank : isBlank payload = false) (hlen : payload.length ≤ 4096) (now : Time) :
    ∃ q'', q'.add name payload now
        = (.ok { id := q.nextID + (added + 1 : ℕ), payload := payload, status := .pending,
                 createdAt := now }, q'')
      ∧ Holding q name (tasks ++ [{ id := q.nextID + (added + 1 : ℕ), payload := payload,
                                    status := .pending, createdAt := now }]) (added + 1) q'' := by
  obtain ⟨counts, rfl⟩ := h
  have hid : q.nextID + (added : ℤ) + 1 = q.nextID + (added + 1 : ℕ) := by
    push_cast
    ring
  unfold Queues.add
  rw [if_neg (by rw [hblank]; simpa using hlen)]
  dsimp only
  rw [Finmap.lookup_insert]
  dsimp only
  rw [Finmap.insert_insert, hid]
  exact ⟨_, rfl, _, rfl⟩

theorem claimTask_append (hbefore : ∀ t ∈ before, t.status ≠ .pending)
    (htask : task.status = .pending) :
    claimTask (before ++ task :: after)
      = some (task.moved .running, before ++ task.moved .running :: after) := by
  induction before with
  | nil => exact if_pos htask
  | cons t before ih =>
    obtain ⟨ht, hrest⟩ := List.forall_mem_cons.mp hbefore
    rw [List.cons_append, claimTask, if_neg ht, ih hrest]
    rfl

theorem Holding.claim (h : Holding q name (before ++ task :: after) added q')
    (hbefore : ∀ t ∈ before, t.status ≠ .pending) (htask : task.status = .pending) :
    ∃ q'', q'.claim name = (.ok (task.moved .running), q'')
      ∧ Holding q name (before ++ task.moved .running :: after) added q'' := by
  obtain ⟨counts, rfl⟩ := h
  unfold Queues.claim
  dsimp only
  rw [Finmap.lookup_insert]
  dsimp only
  rw [claimTask_append hbefore htask]
  dsimp only
  rw [Finmap.insert_insert]
  exact ⟨_, rfl, _, rfl⟩

theorem updateTask_append {status : Status} (hbefore : ∀ t ∈ before, t.id ≠ task.id)
    (htask : task.status = .running) (hstatus : status = .completed ∨ status = .failed) :
    updateTask task.id status (before ++ task :: after)
      = .ok (task.status, task.moved status, before ++ task.moved status :: after) := by
  induction before with
  | nil =>
    rw [List.nil_append, updateTask, if_neg (not_not.mpr rfl)]
    exact if_neg (not_not.mpr (Or.inl ⟨htask, hstatus⟩))
  | cons t before ih =>
    obtain ⟨ht, hrest⟩ := List.forall_mem_cons.mp hbefore
    rw [List.cons_append, updateTask, if_pos ht, ih hrest]
    rfl

theorem Holding.update {status : Status} (h : Holding q name (before ++ task :: after) added q')
    (hbefore : ∀ t ∈ before, t.id ≠ task.id) (htask : task.status = .running)
    (hstatus : status = .completed ∨ status = .failed) :
    ∃ q'', q'.update name task.id status.text = (.ok (task.moved status), q'')
      ∧ Holding q name (before ++ task.moved status :: after) added q'' := by
  obtain ⟨counts, rfl⟩ := h
  have htext : Status.ofText status.text = some status := by
    cases status <;> decide
  unfold Queues.update
  rw [htext]
  dsimp only
  rw [Finmap.lookup_insert]
  dsimp only
  rw [updateTask_append hbefore htask hstatus]
  dsimp only
  rw [Finmap.insert_insert]
  exact ⟨_, rfl, _, rfl⟩

end Queue

/-! ## The checks that it passes -/

theorem length_demoPayload {name : GoString} (hname : name.length ≤ 64) {i : ℕ}
    (hi : i + 1 < 2 ^ 63) : (demoPayload name i).length ≤ 4096 := by
  have hdecimal := Strconv.length_decimal_le (k := 19) (n := i + 1) (by decide)
    (lt_trans hi (by decide))
  have htext : (str "Tâche ").length = 7 := rfl
  have hspace : (str " ").length = 1 := rfl
  unfold demoPayload pad4
  simp only [List.length_append, List.length_replicate, htext, hspace]
  omega

theorem not_blank_demoPayload (name : GoString) (i : ℕ) : isBlank (demoPayload name i) = false := by
  obtain ⟨rest, hrest⟩ : ∃ rest, demoPayload name i = runeBytes 'T' ++ rest :=
    ⟨str "âche " ++ name ++ str " " ++ pad4 (i + 1), rfl⟩
  have hrune : (decodeRune (demoPayload name i)).1 = 'T' := by
    rw [hrest, decodeRune_append]
  have hhead : runes (demoPayload name i) = (decodeRune (demoPayload name i)).1 ::
      runesFrom ((decodeRune (demoPayload name i)).2 - 1) (demoPayload name i).tail := rfl
  unfold isBlank
  rw [hhead, hrune]
  rfl

/-! ## The loops -/

section Loops

variable {q q' : Queues} {name : GoString} {now : ℕ → Time} {n : ℕ}

theorem demoTasks_succ (name : GoString) (now : ℕ → Time) (base : ℤ) (claims n : ℕ) :
    demoTasks name now base claims (n + 1)
      = demoTasks name now base claims n ++ [demoTask name now base claims n] := by
  unfold demoTasks
  rw [List.range_succ, List.map_append, List.map_singleton]

/-- One round of the loop that adds. -/
theorem addDemo_step {i : ℕ} (hname : name.length ≤ 64) (hi : i + 1 < 2 ^ 63)
    (h : Holding q name (demoTasks name now q.nextID 0 i) i q') :
    (addDemo name now i q').1 = none
      ∧ Holding q name (demoTasks name now q.nextID 0 (i + 1)) (i + 1)
          (addDemo name now i q').2 := by
  obtain ⟨q'', hadd, hnext⟩ :=
    h.add (not_blank_demoPayload name i) (length_demoPayload hname hi) (now i)
  unfold addDemo
  rw [hadd, demoTasks_succ]
  exact ⟨rfl, hnext⟩

/-- Before a round of the loop that claims, the first pending task is the one whose
turn it is; its round changes that one only. -/
theorem demoTasks_split (name : GoString) (now : ℕ → Time) (base : ℤ) {i n : ℕ} (hi : i < n)
    (h30 : i < 30) :
    ∃ before after,
      (∀ t ∈ before, t.status ≠ .pending) ∧ (∀ t ∈ before, t.id ≠ (demoTask name now base i i).id)
      ∧ demoTasks name now base i n = before ++ demoTask name now base i i :: after
      ∧ demoTasks name now base (i + 1) n
          = before ++ (demoTask name now base i i).moved (demoStatus i) :: after := by
  obtain ⟨k, rfl⟩ := Nat.exists_eq_add_of_lt hi
  have hrange : List.range (i + k + 1)
      = List.range i ++ i :: (List.range k).map (fun j => i + (j + 1)) := by
    rw [add_assoc, List.range_add, List.range_succ_eq_map, List.map_cons, List.map_map]
    rfl
  -- a task is the same in both lists, unless it is the one of the round
  have hsame : ∀ j, j ≠ i → demoTask name now base (i + 1) j = demoTask name now base i j := by
    intro j hj
    have hiff : (j < i + 1) = (j < i) := propext (by omega)
    simp only [demoTask, hiff]
  refine ⟨(List.range i).map (demoTask name now base i),
    ((List.range k).map (fun j => i + (j + 1))).map (demoTask name now base i), ?_, ?_, ?_, ?_⟩
  · intro t ht
    obtain ⟨j, hj, rfl⟩ := List.mem_map.mp ht
    have hj := List.mem_range.mp hj
    simp only [demoTask, if_pos hj, demoStatus]
    split_ifs
    · exact Status.noConfusion
    · exact Status.noConfusion
    · exact Status.noConfusion
    · omega
  · intro t ht
    obtain ⟨j, hj, rfl⟩ := List.mem_map.mp ht
    have hj := List.mem_range.mp hj
    simp only [demoTask]
    omega
  · unfold demoTasks
    rw [hrange, List.map_append, List.map_cons]
  · unfold demoTasks
    rw [hrange, List.map_append, List.map_cons]
    congr 1
    · exact List.map_congr_left (fun j hj => hsame j (List.mem_range.mp hj).ne)
    congr 1
    · simp only [demoTask, Task.moved, if_pos (Nat.lt_succ_self i)]
    · refine List.map_congr_left (fun j hj => hsame j ?_)
      obtain ⟨l, _, rfl⟩ := List.mem_map.mp hj
      omega

/-- One round of the loop that claims. -/
theorem claimDemo_step {i : ℕ} (hi : i < n) (h30 : i < 30)
    (h : Holding q name (demoTasks name now q.nextID i n) n q') :
    (claimDemo name i q').1 = none
      ∧ Holding q name (demoTasks name now q.nextID (i + 1) n) n (claimDemo name i q').2 := by
  obtain ⟨before, after, hpending, hids, htasks, hnext⟩ :=
    demoTasks_split name now q.nextID hi h30
  rw [htasks] at h
  rw [hnext]
  have htask : (demoTask name now q.nextID i i).status = .pending := if_neg (lt_irrefl i)
  obtain ⟨q₁, hclaim, h₁⟩ := h.claim hpending htask
  unfold claimDemo
  rw [hclaim]
  dsimp only
  by_cases h25 : i < 25
  · have hstatus : demoStatus i = if i % 5 = 0 then .failed else .completed := if_pos h25
    have htext : (if i % 5 = 0 then Status.failed.text else Status.completed.text)
        = (demoStatus i).text := by
      rw [hstatus]
      split_ifs <;> rfl
    have hends : demoStatus i = .completed ∨ demoStatus i = .failed := by
      rw [hstatus]
      split_ifs <;> simp
    obtain ⟨q₂, hupdate, h₂⟩ := h₁.update hids rfl hends
    rw [if_pos h25, htext, hupdate]
    exact ⟨rfl, h₂⟩
  · have hstatus : demoStatus i = .running := by
      unfold demoStatus
      rw [if_neg h25, if_pos h30]
    rw [if_neg h25, hstatus]
    exact ⟨rfl, h₁⟩

/-- **One queue** is made as it should be. -/
theorem seedQueue_eq {tasks : ℤ} (htasks : tasks < 2 ^ 63) {now : GoString → ℕ → Time}
    (hname : name.length ≠ 0 ∧ name.length ≤ 64 ∧ trim name nameCharacters = [])
    (hnone : q.queues.lookup name = none) :
    (seedQueue tasks now name q).1 = none
      ∧ Holding q name (demoTasks name (now name) q.nextID 30 tasks.toNat) tasks.toNat
          (seedQueue tasks now name q).2 := by
  have hcreate : q.create name = (none, { q with queues := q.queues.insert name emptyQueue }) := by
    unfold Queues.create
    rw [if_neg (by rw [not_or, not_or, not_not]; exact ⟨hname.1, not_lt.mpr hname.2.1, hname.2.2⟩),
      hnone]
  have hadded := forRange_invariant (f := addDemo name (now name)) (n := tasks)
    (s := { q with queues := q.queues.insert name emptyQueue })
    (fun i q' => Holding q name (demoTasks name (now name) q.nextID 0 i) i q')
    ⟨_, by rw [Nat.cast_zero, add_zero]; rfl⟩
    (fun i q' hi h => addDemo_step hname.2.1 (by omega) h)
  unfold seedQueue
  rw [hcreate]
  dsimp only
  generalize forRange (addDemo name (now name)) tasks _ = r at hadded ⊢
  obtain ⟨_, q₁⟩ := r
  obtain ⟨rfl, hadded⟩ := hadded
  dsimp only
  have hclaims : (if 30 > tasks then tasks else 30).toNat = min 30 tasks.toNat := by
    split_ifs <;> omega
  obtain ⟨hok, hclaimed⟩ := forRange_invariant (f := claimDemo name)
    (n := if 30 > tasks then tasks else 30) (s := q₁)
    (fun i q' => Holding q name (demoTasks name (now name) q.nextID i tasks.toNat) tasks.toNat q')
    hadded
    (fun i q' hi h => by
      rw [hclaims] at hi
      exact claimDemo_step (by omega) (by omega) h)
  refine ⟨hok, ?_⟩
  rw [hclaims] at hclaimed
  have hlast : demoTasks name (now name) q.nextID (min 30 tasks.toNat) tasks.toNat
      = demoTasks name (now name) q.nextID 30 tasks.toNat := by
    refine List.map_congr_left (fun i hi => ?_)
    have hi := List.mem_range.mp hi
    have hiff : (i < min 30 tasks.toNat) = (i < 30) := propext (by omega)
    simp only [demoTask, hiff]
  rwa [hlast] at hclaimed

end Loops

/-! ## Only calls are made -/

section Calls

variable {I : Queues → Prop} (hcall : ∀ q c, I q → I (q.call c).2)

include hcall

theorem addDemo_preserves (name : GoString) (now : ℕ → Time) (i : ℕ) {q : Queues} (h : I q) :
    I (addDemo name now i q).2 := by
  have hadd := hcall q (.add name (demoPayload name i) (now i)) h
  change I (q.add name (demoPayload name i) (now i)).2 at hadd
  unfold addDemo
  generalize q.add name (demoPayload name i) (now i) = r at hadd ⊢
  obtain ⟨_ | _, _⟩ := r <;> exact hadd

theorem claimDemo_preserves (name : GoString) (i : ℕ) {q : Queues} (h : I q) :
    I (claimDemo name i q).2 := by
  have hclaim := hcall q (.claim name) h
  change I (q.claim name).2 at hclaim
  unfold claimDemo
  generalize q.claim name = r at hclaim ⊢
  obtain ⟨_ | task, q'⟩ := r
  · exact hclaim
  dsimp only at hclaim ⊢
  generalize (if i % 5 = 0 then Status.failed.text else Status.completed.text) = status
  by_cases h25 : i < 25
  · have hupdate := hcall q' (.update name task.id status) hclaim
    change I (q'.update name task.id status).2 at hupdate
    rw [if_pos h25]
    generalize q'.update name task.id status = r at hupdate ⊢
    obtain ⟨_ | _, _⟩ := r <;> exact hupdate
  · rw [if_neg h25]
    exact hclaim

/-- What every call keeps, the loops keep. -/
theorem seedQueue_preserves (tasks : ℤ) (now : GoString → ℕ → Time) (name : GoString)
    {q : Queues} (h : I q) : I (seedQueue tasks now name q).2 := by
  have hcreate := hcall q (.create name) h
  change I (q.create name).2 at hcreate
  unfold seedQueue
  generalize q.create name = r at hcreate ⊢
  obtain ⟨_ | _, q₁⟩ := r
  · have hadded := forEach_preserves I (fun i _ h => addDemo_preserves hcall name (now name) i h)
      (List.range tasks.toNat) hcreate
    change I (forRange (addDemo name (now name)) tasks q₁).2 at hadded
    dsimp only
    generalize forRange (addDemo name (now name)) tasks q₁ = r at hadded ⊢
    obtain ⟨_ | _, q₂⟩ := r
    · exact forEach_preserves I (fun i _ h => claimDemo_preserves hcall name i h) _ hadded
    · exact hadded
  · exact hcreate

end Calls

/-! ## The three queues -/

/-- How many of the tasks of a queue have a status. -/
def demoCount (n : ℕ) : Status → ℕ
  | .pending => n - 30
  | .running => min 30 n - min 25 n
  | .completed => min 25 n - (min 25 n + 4) / 5
  | .failed => (min 25 n + 4) / 5

theorem countP_demoTasks (name : GoString) (now : ℕ → Time) (base : ℤ) (n : ℕ)
    (status : Status) :
    (demoTasks name now base 30 n).countP (fun task => task.status = status)
      = demoCount n status := by
  induction n with
  | zero => cases status <;> rfl
  | succ n ih =>
    have hlast : (demoTask name now base 30 n).status = demoStatus n := by
      by_cases h30 : n < 30
      · exact if_pos h30
      · have h25 : ¬ n < 25 := by omega
        simp only [demoTask, demoStatus, if_neg h30, if_neg h25]
    rw [demoTasks_succ, List.countP_append, ih, List.countP_singleton, hlast]
    unfold demoStatus
    cases status <;> simp only [demoCount] <;> split_ifs <;> simp_all <;> omega

/-- The queues with some names have been made. -/
structure Seeded (q : Queues) (tasks : ℤ) (now : GoString → ℕ → Time) (done : List GoString)
    (q' : Queues) : Prop where
  /-- The books are right. -/
  sound : q'.Sound
  /-- A number has been given to each of the tasks. -/
  nextID : q'.nextID = q.nextID + done.length * tasks.toNat
  /-- The queues, in the order in which they were made. -/
  made : ∀ (k : ℕ) name, done[k]? = some name → ∃ counts, q'.queues.lookup name
    = some ⟨demoTasks name (now name) (q.nextID + k * tasks.toNat) 30 tasks.toNat, counts⟩
  /-- The other queues are what they were. -/
  frame : ∀ name, name ∉ done → q'.queues.lookup name = q.queues.lookup name

theorem Seeded.step {q q' : Queues} {tasks : ℤ} (htasks : tasks < 2 ^ 63)
    {now : GoString → ℕ → Time} {done : List GoString} (h : Seeded q tasks now done q')
    {name : GoString}
    (hname : name.length ≠ 0 ∧ name.length ≤ 64 ∧ trim name nameCharacters = [])
    (hnew : name ∉ done) (hnone : q.queues.lookup name = none) :
    (seedQueue tasks now name q').1 = none
      ∧ Seeded q tasks now (done ++ [name]) (seedQueue tasks now name q').2 := by
  have hmade : (seedQueue tasks now name q').1 = none
      ∧ Holding q' name (demoTasks name (now name) q'.nextID 30 tasks.toNat) tasks.toNat
          (seedQueue tasks now name q').2 :=
    seedQueue_eq htasks hname ((h.frame name hnew).trans hnone)
  obtain ⟨hok, counts, heq⟩ := hmade
  have hsound := seedQueue_preserves (I := Sound) (fun _ c hs => call_sound hs c) tasks now name
    h.sound
  rw [heq] at hsound ⊢
  refine ⟨hok, hsound, ?_, ?_, ?_⟩
  · dsimp only
    rw [h.nextID, List.length_append, List.length_singleton]
    push_cast
    ring
  · intro k n hk
    dsimp only
    by_cases hlt : k < done.length
    · rw [List.getElem?_append_left hlt] at hk
      have hne : n ≠ name := fun hn => hnew (hn ▸ List.mem_of_getElem? hk)
      rw [Finmap.lookup_insert_of_ne _ hne]
      exact h.made k n hk
    · rw [List.getElem?_append_right (not_lt.mp hlt)] at hk
      obtain ⟨hlast, hn⟩ := List.getElem?_eq_some_iff.mp hk
      rw [List.length_singleton] at hlast
      have hkd : k = done.length := by omega
      subst hkd
      rw [List.getElem_singleton] at hn
      rw [← hn, Finmap.lookup_insert, h.nextID]
      exact ⟨counts, rfl⟩
  · intro n hn
    rw [List.mem_append, List.mem_singleton, not_or] at hn
    dsimp only
    rw [Finmap.lookup_insert_of_ne _ hn.2]
    exact h.frame n hn.1

/-- **`seedDemo` makes the three queues**, whatever the number of tasks: no check
refuses one, and nothing else changes. -/
theorem seedDemo_eq {q : Queues} (h : q.Sound)
    (hnone : ∀ name ∈ demoNames, q.queues.lookup name = none) (tasks : ℤ)
    (htasks : tasks < 2 ^ 63) (now : GoString → ℕ → Time) :
    (seedDemo q tasks now).1 = none ∧ (seedDemo q tasks now).2.Sound
      ∧ (seedDemo q tasks now).2.nextID = q.nextID + 3 * tasks.toNat
      ∧ (∀ (k : ℕ) name, demoNames[k]? = some name →
          ∃ entry, (seedDemo q tasks now).2.queues.lookup name = some entry
            ∧ entry.tasks
                = demoTasks name (now name) (q.nextID + k * tasks.toNat) 30 tasks.toNat
            ∧ ∀ status, entry.counts.lookup status = some (demoCount tasks.toNat status : ℤ))
      ∧ ∀ name, name ∉ demoNames →
          (seedDemo q tasks now).2.queues.lookup name = q.queues.lookup name := by
  have hnames : ∀ name ∈ demoNames,
      name.length ≠ 0 ∧ name.length ≤ 64 ∧ trim name nameCharacters = [] := by
    decide +kernel
  have hnodup : demoNames.Nodup := by decide
  have hstart : Seeded q tasks now [] q :=
    ⟨h, by rw [List.length_nil, Nat.cast_zero, zero_mul, add_zero],
      fun k name hk => absurd hk (by rw [List.getElem?_nil]; exact nofun), fun _ _ => rfl⟩
  have hloop : (seedDemo q tasks now).1 = none
      ∧ Seeded q tasks now demoNames (seedDemo q tasks now).2 := by
    refine forEach_invariant (Seeded q tasks now) hstart (fun done name rest q' hitems hI => ?_)
    have hmem : name ∈ demoNames := hitems ▸ List.mem_append_right _ List.mem_cons_self
    have hnew : name ∉ done := fun hd =>
      List.disjoint_of_nodup_append (hitems ▸ hnodup) hd List.mem_cons_self
    exact hI.step htasks (hnames name hmem) hnew (hnone name hmem)
  obtain ⟨hok, hseeded⟩ := hloop
  refine ⟨hok, hseeded.sound, hseeded.nextID, fun k name hk => ?_, hseeded.frame⟩
  obtain ⟨counts, hentry⟩ := hseeded.made k name hk
  refine ⟨_, hentry, rfl, fun status => ?_⟩
  rw [hseeded.sound.tallied name _ hentry status, countP_demoTasks]

/-- Forty tasks: five fail, twenty complete, five stay with a worker and ten wait. -/
theorem seedDemo_forty :
    ∃ entry, (seedDemo new 40 (fun _ i => (i : ℤ))).2.queues.lookup (str "emails") = some entry
      ∧ entry.counts.lookup .pending = some 10 ∧ entry.counts.lookup .running = some 5
      ∧ entry.counts.lookup .completed = some 20 ∧ entry.counts.lookup .failed = some 5 := by
  obtain ⟨_, _, _, hmade, _⟩ :=
    seedDemo_eq sound_new (fun _ _ => rfl) 40 (by decide) (fun _ i => (i : ℤ))
  obtain ⟨entry, hentry, _, hcounts⟩ := hmade 0 (str "emails") rfl
  exact ⟨entry, hentry, hcounts .pending, hcounts .running, hcounts .completed, hcounts .failed⟩

end Queues

end WasmRedis
