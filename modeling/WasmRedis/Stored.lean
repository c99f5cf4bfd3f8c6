import WasmRedis.Dashboard

/-!
# What the queues hold

What comes into the queues has passed two checks: that of the body, which gives
nothing but UTF-8, and that of the operation. So in every state of a server a queue
has a name that stands in a path as it is, and a task has a text that is not blank,
has at most 4096 bytes and is written in a response without a change.

`stored` says so of every run, whatever is asked. It is why the dashboard may ask about
every queue it has been given.
-/

namespace WasmRedis

open GoString

/-- A text that a task can have. -/
structure IsPayload (payload : GoString) : Prop where
  /-- It is UTF-8. -/
  utf8 : IsUTF8 payload
  /-- It is not blank. -/
  not_blank : isBlank payload = false
  /-- It is not too long. -/
  length_le : payload.length ≤ 4096

namespace Queues

/-- **What the queues hold.** -/
structure Stored (q : Queues) : Prop where
  /-- The names of the queues. -/
  names : ∀ name entry, q.queues.lookup name = some entry → Dashboard.IsName name
  /-- The texts of the tasks. -/
  payloads : ∀ name entry, q.queues.lookup name = some entry →
    ∀ task ∈ entry.tasks, IsPayload task.payload

theorem stored_new : new.Stored where
  names _ _ h := by cases h
  payloads _ _ h := by cases h

/-- A queue is put. -/
theorem Stored.insert {q : Queues} (h : q.Stored) {name : GoString} {entry : Queue} {nextID : ℤ}
    (hname : Dashboard.IsName name) (hentry : ∀ task ∈ entry.tasks, IsPayload task.payload) :
    Stored { queues := q.queues.insert name entry, nextID := nextID } := by
  have hcases : ∀ n e, (q.queues.insert name entry).lookup n = some e →
      (n = name ∧ e = entry) ∨ q.queues.lookup n = some e := by
    intro n e hlook
    by_cases hn : n = name
    · subst hn
      rw [Finmap.lookup_insert] at hlook
      exact Or.inl ⟨rfl, (Option.some.inj hlook).symm⟩
    · rw [Finmap.lookup_insert_of_ne _ hn] at hlook
      exact Or.inr hlook
  constructor
  · intro n e hlook
    obtain ⟨rfl, _⟩ | hlook := hcases n e hlook
    · exact hname
    · exact h.names n e hlook
  · intro n e hlook
    obtain ⟨_, rfl⟩ | hlook := hcases n e hlook
    · exact hentry
    · exact h.payloads n e hlook

/-- Moving a task leaves the texts as they are. -/
theorem Stored.moved {q : Queues} (h : q.Stored) {name : GoString} {entry : Queue} {task : Task}
    (hentry : q.queues.lookup name = some entry) (status : Status) :
    Stored { q with queues := q.queues.insert name (entry.moved task status) } := by
  refine h.insert (h.names name entry hentry) (fun t ht => ?_)
  have hsame : (entry.moved task status).tasks.map Task.payload = entry.tasks.map Task.payload :=
    KeyedList.map_change (f := Task.moved status) (fun _ => rfl) task.id entry.tasks
  have hmem : t.payload ∈ entry.tasks.map Task.payload := hsame ▸ List.mem_map_of_mem ht
  obtain ⟨t', ht', heq⟩ := List.mem_map.mp hmem
  exact heq ▸ h.payloads name entry hentry t' ht'

/-- `Create` checks the name. -/
theorem Stored.create {q : Queues} (h : q.Stored) (name : GoString) :
    (q.create name).2.Stored := by
  unfold Queues.create
  by_cases hbad : name.length = 0 ∨ name.length > 64 ∨ trim name nameCharacters ≠ []
  · rw [if_pos hbad]
    exact h
  · rw [if_neg hbad]
    simp only [not_or, not_lt, not_not] at hbad
    obtain ⟨hpos, hlen, htrim⟩ := hbad
    cases q.queues.lookup name with
    | some entry => exact h
    | none =>
      exact h.insert ⟨fun hnil => hpos (by rw [hnil]; rfl), hlen, htrim⟩
        (fun _ hmem => absurd hmem List.not_mem_nil)

/-- `Add` checks the text. -/
theorem Stored.add {q : Queues} (h : q.Stored) (name : GoString) {payload : GoString}
    (hpayload : IsUTF8 payload) (now : Time) : (q.add name payload now).2.Stored := by
  unfold Queues.add
  by_cases hbad : isBlank payload ∨ payload.length > 4096
  · rw [if_pos hbad]
    exact h
  · rw [if_neg hbad]
    simp only [not_or, not_lt, Bool.not_eq_true] at hbad
    cases hentry : q.queues.lookup name with
    | none => exact h
    | some entry =>
      refine h.insert (h.names name entry hentry) (fun task hmem => ?_)
      obtain hmem | hmem := List.mem_append.mp hmem
      · exact h.payloads name entry hentry task hmem
      · rw [List.mem_singleton.mp hmem]
        exact ⟨hpayload, hbad.1, hbad.2⟩

/-- **Every call keeps this**, if the text it adds is UTF-8. -/
theorem Stored.call {q : Queues} (h : q.Stored) (hs : q.Sound) {c : Call}
    (hc : ∀ name payload now, c = .add name payload now → IsUTF8 payload) :
    (q.call c).2.Stored := by
  have heffect := call_effect hs c
  cases c with
  | create name => exact h.create name
  | add name payload now => exact h.add name (hc name payload now rfl) now
  | list r => exact h
  | page name status offset limit => exact h
  | claim name =>
    generalize q.call (.claim name) = r at heffect ⊢
    obtain ⟨answer, q'⟩ := r
    cases heffect with
    | kept _ => exact h
    | claimed hentry _ _ => exact h.moved hentry .running
  | update name id text =>
    generalize q.call (.update name id text) = r at heffect ⊢
    obtain ⟨answer, q'⟩ := r
    cases heffect with
    | kept _ => exact h
    | updated hentry _ _ _ => exact h.moved hentry _

end Queues

namespace Api

theorem exists_of_after {α : Type} {needed : Option α} {p : α → Plan} {name : GoString}
    {call : Moment → Queues.Call} {status : ℕ}
    (h : Plan.after needed p = .queues name call status) :
    ∃ a, needed = some a ∧ p a = .queues name call status := by
  cases needed with
  | none => cases h
  | some a => exact ⟨a, rfl, h⟩

/-- The text that a request adds has come in its body. -/
theorem text_of_plan {r : Request} {name : GoString} {call : Moment → Queues.Call} {status : ℕ}
    (h : plan r = .queues name call status) {m : Moment} {queue payload : GoString} {now : Time}
    (hadd : call m = .add queue payload now) : text "payload" r.body = some payload := by
  unfold plan at h
  cases hroute : route r.method r.path with
  | addTask queue' =>
    rw [hroute] at h
    obtain ⟨payload', htext, hplan⟩ := exists_of_after h
    cases hplan
    cases hadd
    exact htext
  | listQueues =>
    rw [hroute] at h
    cases h
    cases hadd
  | createQueue =>
    rw [hroute] at h
    obtain ⟨_, _, hplan⟩ := exists_of_after h
    cases hplan
    cases hadd
  | tasks queue' =>
    rw [hroute] at h
    obtain ⟨_, _, hplan⟩ := exists_of_after h
    obtain ⟨_, _, hplan⟩ := exists_of_after hplan
    cases hplan
    cases hadd
  | claim queue' =>
    rw [hroute] at h
    cases h
    cases hadd
  | update queue' id =>
    rw [hroute] at h
    obtain ⟨_, _, hplan⟩ := exists_of_after h
    obtain ⟨_, _, hplan⟩ := exists_of_after hplan
    cases hplan
    cases hadd
  | command =>
    rw [hroute] at h
    obtain ⟨_, _, hplan⟩ := exists_of_after h
    cases hplan
  | batch =>
    rw [hroute] at h
    obtain ⟨_, _, hplan⟩ := exists_of_after h
    cases hplan
  | _ =>
    rw [hroute] at h
    cases h

variable {R : Type} [LinearOrder R] [Zero R] [Strconv R] [TextLib]

namespace Server

/-- Whatever happens keeps what the queues hold. -/
theorem stored_occur {s : Server R} (hs : s.queues.Sound) (h : s.queues.Stored)
    (what : Occurrence) : (s.occur what).2.queues.Sound ∧ (s.occur what).2.queues.Stored := by
  cases what with
  | background c => exact ⟨hs, h⟩
  | request r m =>
    have hoccur : (s.occur (.request r m)).2 = (s.carry m (plan r)).2 :=
      congrArg Prod.snd (s.handle_eq m r)
    rw [hoccur]
    cases hplan : plan r with
    | queues name call status =>
      exact ⟨Queues.call_sound hs (call m),
        h.call hs (fun _ _ _ hadd => isUTF8_of_text (text_of_plan hplan hadd))⟩
    | _ => exact ⟨hs, h⟩

theorem stored_after {s : Server R} (hs : s.queues.Sound) (h : s.queues.Stored) (t : Time)
    (events : List (Occurrence × Time)) : (serving.after (s, t) events).1.queues.Stored := by
  induction events generalizing s t with
  | nil => exact h
  | cons event events ih =>
    obtain ⟨hs', h'⟩ := stored_occur hs h event.1
    exact ih hs' h' event.2

/-- **What the queues of a server hold**, in every state of every run that starts with no
queues: names that can stand in a path as they are, and texts of UTF-8 that are not blank
and have at most 4096 bytes – whatever the requests are, and whatever the engine is. -/
theorem stored (kv : Engine R) (t : Time) (events : List (Occurrence × Time)) :
    (serving.after (({ queues := Queues.new, kv := kv } : Server R), t) events).1.queues.Stored :=
  stored_after Queues.sound_new Queues.stored_new t events

end Server

end Api

end WasmRedis
