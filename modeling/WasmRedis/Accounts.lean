import WasmRedis.Handlers
import WasmRedis.Histories

/-!
# The accounts of a task

Workers claim tasks over HTTP, and say how they ended. Each of them knows nothing but
the responses it is given, and none is told in which order the others were served.

`accounts` adds up the responses of all. A task that was pending at first, or was not
there, has been handed out as often as it has been put back, and once more if it is not
pending: so no two workers are given one task that nobody has put back. It has failed
as often as it has been put back, and once more if it is failed; and it has been
completed once, if it is. What it was at first counts as if it had been handed out.
-/

namespace WasmRedis

open GoString

/-- Where a task can come from, into a status. -/
def Status.source : Status → Status
  | pending => failed
  | running => pending
  | completed => running
  | failed => running

theorem Status.Updates.source_eq {current status : Status} (h : current.Updates status) :
    status.source = current := by
  obtain ⟨rfl, rfl | rfl⟩ | ⟨rfl, rfl⟩ := h <;> rfl

namespace Queues

/-- The status in which an answer hands out a task that it has moved. -/
def moved (name : GoString) (id : ℤ) : Call → Answer → Option Status
  | .claim n, .task (.ok task) => if n = name ∧ task.id = id then some task.status else none
  | .update n _ _, .task (.ok task) => if n = name ∧ task.id = id then some task.status else none
  | _, _ => none

theorem moved_of_not_ok {name : GoString} {id : ℤ} {c : Call} {answer : Answer}
    (h : ∀ task, answer ≠ .task (.ok task)) : moved name id c answer = none := by
  cases answer with
  | task result =>
    cases result with
    | error err => cases c <;> rfl
    | ok task => exact absurd rfl (h task)
  | error err => cases c <;> rfl
  | summaries result => cases c <;> rfl
  | page result => cases c <;> rfl

/-- What is gained by a quantity of the status of a task, when it has been moved. -/
def gain (f : Option Status → ℤ) (move : Option Status) : ℤ :=
  (move.map (fun status => f (some status) - f (some status.source))).getD 0

/-- **One call**: a quantity of the status of a task changes by the gain of what is
answered, if it does not tell a task that is pending from none. -/
theorem call_gain {q : Queues} (h : q.Sound) (c : Call) (name : GoString) (id : ℤ)
    {f : Option Status → ℤ} (hf : f none = f (some .pending)) :
    f (statusOf name id (q.call c).2)
      = f (statusOf name id q) + gain f (moved name id c (q.call c).1) := by
  have heffect := call_effect h c
  generalize q.call c = r at heffect
  obtain ⟨answer, q'⟩ := r
  dsimp only at heffect ⊢
  cases heffect with
  | kept hanswer =>
    rw [moved_of_not_ok hanswer]
    exact (add_zero _).symm
  | created hnone =>
    rw [statusOf_created hnone]
    exact (add_zero _).symm
  | added hentry _ hp =>
    obtain hsame | ⟨hnone, hadded⟩ := @statusOf_added q name id _ _ hentry _ hp
    · rw [hsame]
      exact (add_zero _).symm
    · rw [hnone, hadded, hf]
      exact (add_zero _).symm
  | @claimed n entry task hentry hmem hp =>
    rw [statusOf_moved h hentry hmem]
    by_cases hthis : n = name ∧ task.id = id
    · obtain ⟨rfl, rfl⟩ := hthis
      rw [if_pos ⟨rfl, rfl⟩, statusOf_of_mem h hentry hmem, hp]
      have hmoved : moved n task.id (.claim n) (.task (.ok (task.moved .running)))
          = some .running := if_pos ⟨rfl, rfl⟩
      rw [hmoved]
      exact (add_sub_cancel _ _).symm
    · have hmoved : moved name id (.claim n) (.task (.ok (task.moved .running))) = none :=
        if_neg hthis
      rw [hmoved, if_neg (fun hthat => hthis ⟨hthat.1.symm, hthat.2.symm⟩)]
      exact (add_zero _).symm
  | @updated n text entry task status hentry hmem htext hu =>
    rw [statusOf_moved h hentry hmem]
    by_cases hthis : n = name ∧ task.id = id
    · obtain ⟨rfl, rfl⟩ := hthis
      rw [if_pos ⟨rfl, rfl⟩, statusOf_of_mem h hentry hmem, ← hu.source_eq]
      have hmoved : moved n task.id (.update n task.id text) (.task (.ok (task.moved status)))
          = some status := if_pos ⟨rfl, rfl⟩
      rw [hmoved]
      exact (add_sub_cancel _ _).symm
    · have hmoved : moved name id (.update n task.id text) (.task (.ok (task.moved status)))
          = none := if_neg hthis
      rw [hmoved, if_neg (fun hthat => hthis ⟨hthat.1.symm, hthat.2.symm⟩)]
      exact (add_zero _).symm

end Queues

namespace Api

/-- The status in which a response hands out a task that its request has moved. -/
def moved (name : GoString) (id : ℤ) (r : Request) (reply : Option Served) : Option Status :=
  match route r.method r.path, reply with
  | .claim n, some (.json 200 (.task task)) =>
    if n = name ∧ task.id = id then some task.status else none
  | .update n _, some (.json 200 (.task task)) =>
    if n = name ∧ task.id = id then some task.status else none
  | _, _ => none

section

variable {name : GoString} {id : ℤ} {r : Request}

/-- What is not a task that was asked for hands out none. -/
theorem moved_eq_none {reply : Option Served} (h : ∀ task, reply ≠ some (.json 200 (.task task))) :
    moved name id r reply = none := by
  unfold moved
  split
  · exact absurd rfl (h _)
  · exact absurd rfl (h _)
  · rfl

theorem failed_ne (err : Err) (task : Task) :
    some (failed err) ≠ some (.json 200 (.task task)) := by
  unfold failed
  simp

/-- A plan that needs something first has it, if it comes to the queues. -/
theorem after_eq_queues {α : Type} {needed : Option α} {p : α → Plan} {n : GoString}
    {call : Moment → Queues.Call} {status : ℕ} (h : Plan.after needed p = .queues n call status) :
    ∃ a, needed = some a ∧ p a = .queues n call status := by
  cases needed with
  | none => cases h
  | some a => exact ⟨a, rfl, h⟩

/-- What is written of a task with the status `200`, or of anything else. -/
theorem writeAnswer_cases (n : GoString) (status : ℕ) (answer : Queues.Answer) :
    (∃ task, answer = .task (.ok task) ∧ writeAnswer n status answer = .json status (.task task))
      ∨ (∀ task, answer ≠ .task (.ok task))
        ∧ ∀ task, some (writeAnswer n status answer) ≠ some (.json 200 (.task task)) := by
  cases answer with
  | task result =>
    cases result with
    | ok task => exact Or.inl ⟨task, rfl, rfl⟩
    | error err => exact Or.inr ⟨by simp, failed_ne err⟩
  | error err =>
    cases err with
    | none => exact Or.inr ⟨by simp, by simp [writeAnswer]⟩
    | some err => exact Or.inr ⟨by simp, failed_ne err⟩
  | summaries summaries => exact Or.inr ⟨by simp, by simp [writeAnswer]⟩
  | page result =>
    cases result with
    | ok page => exact Or.inr ⟨by simp, by simp [writeAnswer]⟩
    | error err => exact Or.inr ⟨by simp, failed_ne err⟩

/-- **A response hands out what the answer of the queues does.** -/
theorem moved_writeAnswer {n : GoString} {call : Moment → Queues.Call} {status : ℕ}
    (hplan : plan r = .queues n call status) (m : Moment) (answer : Queues.Answer) :
    moved name id r (some (writeAnswer n status answer))
      = Queues.moved name id (call m) answer := by
  obtain ⟨task, rfl, hwrite⟩ | ⟨hanswer, hwrite⟩ := writeAnswer_cases n status answer
  · rw [hwrite]
    unfold plan at hplan
    unfold moved
    cases hroute : route r.method r.path with
    | claim n' =>
      rw [hroute] at hplan
      cases hplan
      rfl
    | update n' number =>
      rw [hroute] at hplan
      obtain ⟨i, _, hplan⟩ := after_eq_queues hplan
      obtain ⟨text, _, hplan⟩ := after_eq_queues hplan
      cases hplan
      rfl
    | listQueues =>
      rw [hroute] at hplan
      cases hplan
      rfl
    | createQueue =>
      rw [hroute] at hplan
      obtain ⟨_, _, hplan⟩ := after_eq_queues hplan
      cases hplan
      rfl
    | tasks n' =>
      rw [hroute] at hplan
      obtain ⟨_, _, hplan⟩ := after_eq_queues hplan
      obtain ⟨_, _, hplan⟩ := after_eq_queues hplan
      cases hplan
      rfl
    | addTask n' =>
      rw [hroute] at hplan
      obtain ⟨_, _, hplan⟩ := after_eq_queues hplan
      cases hplan
      rfl
    | command =>
      rw [hroute] at hplan
      obtain ⟨_, _, hplan⟩ := after_eq_queues hplan
      cases hplan
    | batch =>
      rw [hroute] at hplan
      obtain ⟨_, _, hplan⟩ := after_eq_queues hplan
      cases hplan
    | flush | snapshot | unknown | files | redirect =>
      rw [hroute] at hplan
      cases hplan
  · rw [moved_eq_none hwrite, Queues.moved_of_not_ok hanswer]

/-- A request that does not come to the queues hands out nothing. -/
theorem moved_of_not_queues (h : ∀ n call status, plan r ≠ .queues n call status)
    (outcomes : List Outcome) : moved name id r ((plan r).respond outcomes) = none := by
  unfold moved
  split
  · next n task hroute _ =>
    refine absurd ?_ (h n (fun _ => .claim n) 200)
    unfold plan
    rw [hroute]
  · next n number task hroute hreply =>
    have hplan : plan r = Plan.after ((Strconv.atoi number).filter (0 < ·)) (fun id =>
        Plan.after (text "status" r.body) (fun status =>
          .queues n (fun _ => .update n id status) 200)) := by
      unfold plan
      rw [hroute]
    -- either the number or the body is refused, and then this is what is written
    have hinvalid : plan r ≠ .served (failed .invalid) := by
      intro heq
      rw [heq] at hreply
      exact failed_ne _ _ hreply
    cases hnumber : (Strconv.atoi number).filter (0 < ·) with
    | none =>
      rw [hnumber] at hplan
      exact absurd hplan hinvalid
    | some i =>
      cases hstatus : text "status" r.body with
      | none =>
        rw [hnumber, hstatus] at hplan
        exact absurd hplan hinvalid
      | some status =>
        rw [hnumber, hstatus] at hplan
        exact absurd hplan (h _ _ _)
  · rfl

/-- Nor does it do anything but turns of the engine. -/
theorem engine_of_mem_operations {p : Plan} (h : ∀ n call status, p ≠ .queues n call status)
    {q : Moment → Operation} (hq : q ∈ p.operations) (m : Moment) : ∃ what, q m = .engine what := by
  cases p with
  | queues n call status => exact absurd rfl (h n call status)
  | served reply => exact absurd hq List.not_mem_nil
  | batch lines =>
    obtain ⟨line, _, rfl⟩ := List.mem_map.mp hq
    exact ⟨_, rfl⟩
  | command line | flush | snapshot =>
    obtain rfl := List.mem_singleton.mp hq
    exact ⟨_, rfl⟩

end

end Api

variable {R : Type} [LinearOrder R] [Zero R] [Strconv R] [TextLib]

namespace Api

namespace Server

open System

variable {ι : Type} [DecidableEq ι] {s : Server R} {t : Time} {requests : ι → Request}
  {moves : List (Move ι Instant (Operation × Time))} {name : GoString} {id : ℤ}

/-- The response to a request after a run, if it has been given. -/
def replyAfter (s : Server R) (t : Time) (requests : ι → Request)
    (moves : List (Move ι Instant (Operation × Time))) (i : ι) : Option Served :=
  (plan (requests i)).respond (handlerAfter s t requests moves i).got

/-- The queues after a run. -/
def queuesAfter (s : Server R) (t : Time) (requests : ι → Request)
    (moves : List (Move ι Instant (Operation × Time))) : Queues :=
  ((handling ι).after (received s t requests) moves).state.1.queues

/-- How many responses have handed out a task with a status, after a run. -/
def handedOut [Fintype ι] (s : Server R) (t : Time) (requests : ι → Request)
    (moves : List (Move ι Instant (Operation × Time))) (name : GoString) (id : ℤ)
    (status : Status) : ℕ :=
  (Finset.univ.filter (fun i =>
    moved name id (requests i) (replyAfter s t requests moves i) = some status)).card

/-- Beside the handlers there are the background tasks, which call the engine. -/
def Undisturbed (moves : List (Move ι Instant (Operation × Time))) : Prop :=
  ∀ event, Move.other event ∈ moves → ∃ c, Background c ∧ event.1 = .engine (.call c)

/-- What a handler has been given is worth what it responds. -/
theorem sum_gain (hrun : (handling ι).Admits (received s t requests) moves) (i : ι)
    (f : Option Status → ℤ) :
    ((handlerAfter s t requests moves i).got.map (fun outcome =>
        Queues.gain f (moved name id (requests i) ((plan (requests i)).respond [outcome])))).sum
      = Queues.gain f (moved name id (requests i) (replyAfter s t requests moves i)) := by
  have hlength := length_got hrun i
  unfold replyAfter
  by_cases hplan : ∃ n call status, plan (requests i) = .queues n call status
  · obtain ⟨n, call, status, hplan⟩ := hplan
    have htodo : ((received s t requests).clients i).todo.length = 1 := by
      show (plan (requests i)).operations.length = 1
      rw [hplan]
      rfl
    have hgot : ((received s t requests).clients i).got.length = 0 := rfl
    rw [htodo, hgot] at hlength
    generalize (handlerAfter s t requests moves i).got = got at hlength ⊢
    cases got with
    | nil =>
      rw [hplan]
      exact congrArg (Queues.gain f) (moved_eq_none (fun task hreply => by cases hreply)).symm
    | cons outcome got =>
      rw [List.length_cons] at hlength
      obtain rfl : got = [] := List.eq_nil_of_length_eq_zero (by omega)
      rw [List.map_singleton, List.sum_singleton]
  · have hnone : ∀ outcomes, moved name id (requests i) ((plan (requests i)).respond outcomes)
        = none :=
      moved_of_not_queues (fun n call status heq => hplan ⟨n, call, status, heq⟩)
    rw [hnone]
    refine List.sum_eq_zero (fun x hx => ?_)
    obtain ⟨outcome, _, rfl⟩ := List.mem_map.mp hx
    rw [hnone]
    rfl

/-- **The balance of a task**: over a run, a quantity of its status has changed by
what the responses are worth. -/
theorem balance_handling [Fintype ι] (hsound : s.queues.Sound)
    (hrun : (handling ι).Admits (received s t requests) moves) (hothers : Undisturbed moves)
    (name : GoString) (id : ℤ) {f : Option Status → ℤ} (hf : f none = f (some .pending)) :
    f (Queues.statusOf name id (queuesAfter s t requests moves))
      = f (Queues.statusOf name id s.queues)
        + ∑ i, Queues.gain f (moved name id (requests i) (replyAfter s t requests moves i)) := by
  have hbalance := balance (fun i outcome =>
      Queues.gain f (moved name id (requests i) ((plan (requests i)).respond [outcome])))
    (fun state : Server R × Time => f (Queues.statusOf name id state.1.queues))
    (fun state => state.1.queues.Sound) hrun hsound ?_ ?_
  · rw [Finset.sum_congr rfl (fun i _ => sum_gain hrun i f)] at hbalance
    refine Eq.trans ?_ hbalance
    have hstart : ∀ i, ((received s t requests).clients i).got = [] := fun _ => rfl
    rw [Finset.sum_eq_zero (fun i _ => by rw [hstart]; rfl), add_zero]
    rfl
  · intro i q hq state k hI _
    have hq : q ∈ (plan (requests i)).operations := hq
    by_cases hplan : ∃ n call status, plan (requests i) = .queues n call status
    · obtain ⟨n, call, status, hplan⟩ := hplan
      have hcall := Queues.call_gain hI (call k.1) name id hf
      rw [← moved_writeAnswer hplan k.1] at hcall
      rw [hplan] at hq ⊢
      obtain rfl := List.mem_singleton.mp hq
      exact ⟨Queues.call_sound hI _, hcall⟩
    · have hno : ∀ n call status, plan (requests i) ≠ .queues n call status :=
        fun n call status heq => hplan ⟨n, call, status, heq⟩
      obtain ⟨what, hwhat⟩ := engine_of_mem_operations hno hq k.1
      show Queues.Sound (state.1.operate (q k.1)).2.queues
        ∧ f (Queues.statusOf name id (state.1.operate (q k.1)).2.queues) = _
      rw [moved_of_not_queues hno, hwhat]
      exact ⟨hI, (add_zero _).symm⟩
  · intro state event hevent hI _
    obtain ⟨c, _, hc⟩ := hothers event hevent
    show Queues.Sound (state.1.operate event.1).2.queues
      ∧ f (Queues.statusOf name id (state.1.operate event.1).2.queues) = _
    rw [hc]
    exact ⟨hI, rfl⟩

/-- **The balance in responses**: what each of them is worth, as often as there are some. -/
theorem handedOut_balance [Fintype ι] (hsound : s.queues.Sound)
    (hrun : (handling ι).Admits (received s t requests) moves) (hothers : Undisturbed moves)
    (name : GoString) (id : ℤ) {f : Option Status → ℤ} (hf : f none = f (some .pending)) :
    f (Queues.statusOf name id (queuesAfter s t requests moves))
      = f (Queues.statusOf name id s.queues)
        + ((f (some .running) - f (some .pending))
              * handedOut s t requests moves name id .running
          + (f (some .failed) - f (some .running)) * handedOut s t requests moves name id .failed
          + (f (some .completed) - f (some .running))
              * handedOut s t requests moves name id .completed
          + (f (some .pending) - f (some .failed))
              * handedOut s t requests moves name id .pending) := by
  have hcount : ∀ status, (handedOut s t requests moves name id status : ℤ)
      = ∑ i, if moved name id (requests i) (replyAfter s t requests moves i) = some status
          then 1 else 0 := by
    intro status
    rw [Finset.sum_boole]
    rfl
  have hgain : ∀ move : Option Status, Queues.gain f move
      = (f (some .running) - f (some .pending)) * (if move = some .running then 1 else 0)
        + (f (some .failed) - f (some .running)) * (if move = some .failed then 1 else 0)
        + (f (some .completed) - f (some .running)) * (if move = some .completed then 1 else 0)
        + (f (some .pending) - f (some .failed)) * (if move = some .pending then 1 else 0) := by
    rintro (_ | _ | _ | _ | _) <;> simp [Queues.gain, Status.source]
  rw [balance_handling hsound hrun hothers name id hf, Finset.sum_congr rfl (fun i _ => hgain _),
    Finset.sum_add_distrib, Finset.sum_add_distrib, Finset.sum_add_distrib, ← Finset.mul_sum,
    ← Finset.mul_sum, ← Finset.mul_sum, ← Finset.mul_sum, ← hcount, ← hcount, ← hcount, ← hcount]

/-- **The accounts of a task.** Whatever the order in which the handlers of any number
of requests and the background tasks get the locks of a server: a task has been handed
out as often as it has been put back, and once more if it is not pending now, once less
if it was not pending at first; it has failed as often as it has been put back, and once
more if it is failed now, once less if it was at first; and it has been completed once
if it is completed now and was not at first, and not at all otherwise. -/
theorem accounts [Fintype ι] (name : GoString) (id : ℤ) (hsound : s.queues.Sound)
    (hrun : (handling ι).Admits (received s t requests) moves) (hothers : Undisturbed moves) :
    handedOut s t requests moves name id .running
          + (if Queues.statusOf name id s.queues = none
              ∨ Queues.statusOf name id s.queues = some .pending then 0 else 1)
        = handedOut s t requests moves name id .pending
          + (if Queues.statusOf name id (queuesAfter s t requests moves) = none
              ∨ Queues.statusOf name id (queuesAfter s t requests moves) = some .pending
            then 0 else 1)
      ∧ handedOut s t requests moves name id .failed
          + (if Queues.statusOf name id s.queues = some .failed then 1 else 0)
        = handedOut s t requests moves name id .pending
          + (if Queues.statusOf name id (queuesAfter s t requests moves) = some .failed
            then 1 else 0)
      ∧ handedOut s t requests moves name id .completed
          + (if Queues.statusOf name id s.queues = some .completed then 1 else 0)
        = if Queues.statusOf name id (queuesAfter s t requests moves) = some .completed
            then 1 else 0 := by
  have hbalance : ∀ {f : Option Status → ℤ}, f none = f (some .pending) → _ :=
    fun hf => handedOut_balance hsound hrun hothers name id hf
  refine ⟨?_, ?_, ?_⟩
  · have hstarted := hbalance
      (f := fun status => if status = none ∨ status = some .pending then 0 else 1) rfl
    simp only [reduceCtorEq, or_self, or_true, if_true, if_false, Option.some.injEq] at hstarted
    split_ifs at hstarted ⊢ <;> omega
  · have hfailed := hbalance (f := fun status => if status = some .failed then 1 else 0) rfl
    simp only [reduceCtorEq, if_true, if_false, Option.some.injEq] at hfailed
    split_ifs at hfailed ⊢ <;> omega
  · have hcompleted := hbalance (f := fun status => if status = some .completed then 1 else 0) rfl
    simp only [reduceCtorEq, if_true, if_false, Option.some.injEq] at hcompleted
    split_ifs at hcompleted ⊢ <;> omega

/-- A server with one task. -/
def oneTask : Server ℕ :=
  { (fresh : Server ℕ) with
    queues := Queues.system.after Queues.new
      [.create (str "emails"), .add (str "emails") (str "premier") 0] }

/-- Two workers claim it. -/
def twoClaims (_ : Bool) : Request := post "/api/queues/emails/claim" ""

/-- One after the other. -/
def inTurn : List (Move Bool Instant (Operation × Time)) :=
  [.ask true (still 0, 0), .ask false (still 1, 1)]

omit [TextLib] in
/-- One of them gets it. -/
theorem accounts_twoClaims :
    let _ := TextLib.ascii
    handedOut oneTask 0 twoClaims inTurn (str "emails") 1 .running = 1 := by
  let _ := TextLib.ascii
  have hplan : ∀ worker, plan (twoClaims worker)
      = .queues (str "emails") (fun _ => .claim (str "emails")) 200 := by
    intro worker
    have hroute : route (post "/api/queues/emails/claim" "").method
        (post "/api/queues/emails/claim" "").path = .claim (str "emails") := by decide +kernel
    unfold twoClaims plan
    rw [hroute]
  have hreceived : received oneTask 0 twoClaims
      = { state := (oneTask, 0)
          clients := fun _ => Client.new [fun _ => .queues (.claim (str "emails"))] } :=
    congrArg (Shared.mk _) (funext fun worker =>
      congrArg Client.new (congrArg Plan.operations (hplan worker)))
  have hrun : (handling Bool).Admits (received oneTask 0 twoClaims) inTurn := by
    rw [hreceived]
    exact ⟨⟨_, _, rfl, le_refl (0 : ℤ)⟩, ⟨_, _, rfl, zero_le_one (α := ℤ)⟩, trivial⟩
  have hback : handedOut oneTask 0 twoClaims inTurn (str "emails") 1 .pending = 0 := by
    decide +kernel
  have hfirst : Queues.statusOf (str "emails") 1 oneTask.queues = some .pending := by
    decide +kernel
  have hstatus : Queues.statusOf (str "emails") 1 (queuesAfter oneTask 0 twoClaims inTurn)
      = some .running := by decide +kernel
  obtain ⟨hrunning, _⟩ := accounts (str "emails") 1 (Queues.after_sound Queues.sound_new _)
    hrun (fun event hevent => by simp [inTurn] at hevent)
  rw [hback, hfirst, hstatus] at hrunning
  exact hrunning

end Server

end Api

end WasmRedis
