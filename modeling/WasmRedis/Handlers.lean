import WasmRedis.Serving

/-!
# Handlers at the same time

The handlers of requests run at the same time. Each looks at the queues or at the
engine under their own lock, once, or once for each line of a batch; before and
after that it only reads its request and writes its response. So the handlers are
the clients of one system, the server that executes one operation at a time, and
any of them may be overtaken between two operations of its own.

`linearizable` says what this comes to: whatever the order in which the handlers
and the background tasks get the locks, every request but a batch is answered as
if it had been executed whole, at one instant, by the façade.
-/

namespace WasmRedis

open GoString

namespace Api

/-! ## Operations -/

/-- What is done under a lock. -/
inductive Operation where
  /-- An operation of the queues. -/
  | queues (call : Queues.Call)
  /-- A turn of the engine. -/
  | engine (what : Asked)

/-- What an operation returns. -/
inductive Outcome where
  /-- The answer of the queues. -/
  | queues (answer : Queues.Answer)
  /-- The answer of the engine. -/
  | engine (answer : Answer)

/-- What may be done between two instants. -/
def Operation.Within (lo hi : Time) : Operation → Prop
  | queues _ => lo ≤ hi
  | engine what => what.Open ∧ what.Within lo hi

/-- The façade says what the operation returns. -/
def Operation.observed : Operation → Bool
  | queues _ => true
  | engine what => what.observed

/-- What decides an operation, beside the server, and an instant that the clock has
reached when it ends. -/
abbrev Instant := Moment × Time

/-- A line of text. -/
def execution (line : GoString) (m : Moment) : Operation :=
  .engine (.line (m.order 0) line (m.now 0))

/-- The operations of a plan, one after the other. -/
def Plan.operations : Plan → List (Moment → Operation)
  | .served _ => []
  | .queues _ call _ => [fun m => .queues (call m)]
  | .command line => [execution line]
  | .batch lines => lines.map execution
  | .flush => [fun m => .engine (.call (.flush m.flush))]
  | .snapshot => [fun m => .engine (.call (.snapshot (m.order 0) m.snapshotNow m.snapshot))]

/-- The result of an operation that is a line. -/
def Outcome.result : Outcome → Result
  | .engine (.result result) => result
  | _ => {}

/-- What is written when the operations of a plan have returned. -/
def Plan.respond : Plan → List Outcome → Option Served
  | .served reply, _ => some reply
  | .queues name _ status, [.queues answer] => some (writeAnswer name status answer)
  | .command _, [outcome] => some (writeResult outcome.result)
  | .batch _, outcomes => some (writeResults (outcomes.map Outcome.result))
  | .flush, [.engine (.ended how)] => some (serveReturn how)
  | .snapshot, [.engine (.ended how)] => some (serveReturn how)
  | _, _ => none

/-- The handler of a request. -/
def handler (r : Request) : System.Client (Moment → Operation) Outcome :=
  System.Client.new (plan r).operations

/-- A handler carries out an operation. -/
def Operation.event (operation : Moment → Operation) (k : Instant) : Operation × Time :=
  (operation k.1, k.2)

end Api

variable {R : Type} [LinearOrder R] [Zero R] [Strconv R] [TextLib]

namespace Api

section

variable (R) (defaultTTL : ℤ)

/-- An operation of the façade. -/
def Facade.operate (f : Facade) : Operation → Option Outcome × Facade
  | .queues call =>
    (some (.queues (f.queues.call call).1), { f with queues := (f.queues.call call).2 })
  | .engine what =>
    Prod.map (Option.map .engine) (fun kv => { f with kv := kv }) (f.kv.turn R defaultTTL what)

/-- The façade, an operation at a time. -/
def Facade.operating : System Facade (Operation × Time) (Option Outcome) where
  admits _ _ := True
  step f event := f.operate R defaultTTL event.1

end

namespace Server

/-- An operation of the server. -/
def operate (s : Server R) : Operation → Outcome × Server R
  | .queues call => (.queues (s.queues.call call).1, { s with queues := (s.queues.call call).2 })
  | .engine what => Prod.map .engine (fun kv => { s with kv := kv }) (s.kv.turn what)

/-- **The server, an operation at a time**, with a clock that never goes back. -/
def operating : System (Server R × Time) (Operation × Time) Outcome where
  admits s event := event.1.Within s.2 event.2
  step s event := ((s.1.operate event.1).1, ((s.1.operate event.1).2, event.2))

end Server

/-! ## The handlers and the façade -/

namespace Server

open System

variable {ι : Type} [DecidableEq ι] {cfg : Config} {defaultTTL : ℤ} {s : Server R} {t : Time}
  {f : Facade} {requests : ι → Request} {moves : List (Move ι Instant (Operation × Time))}

/-- **An operation**: the façade returns the same. -/
theorem Follows.operate (h : Follows defaultTTL t s f) {event : Operation × Time}
    (hadm : event.1.Within t event.2) :
    (if event.1.observed then some (s.operate event.1).1 else none)
        = (f.operate R defaultTTL event.1).1
      ∧ Follows defaultTTL event.2 (s.operate event.1).2 (f.operate R defaultTTL event.1).2 := by
  obtain ⟨what, u⟩ := event
  obtain ⟨hqueues, hkv⟩ := h
  cases what with
  | queues call =>
    unfold Server.operate Facade.operate Operation.observed
    dsimp only
    rw [hqueues]
    exact ⟨if_pos rfl, rfl, hkv.mono hadm⟩
  | engine what =>
    have hadm' : Engine.dialogue.admits (s.kv, t) (what, u) := hadm
    obtain ⟨hans, hfollows⟩ := hkv.turn hadm'
    refine ⟨?_, hqueues, hfollows⟩
    show (if what.observed then some (Outcome.engine (s.kv.turn what).1) else none)
      = Option.map Outcome.engine (f.kv.turn R defaultTTL what).1
    rw [← hans]
    dsimp only
    cases what.observed <;> rfl

/-- The server and the handlers of some requests. -/
abbrev handling (ι : Type) [DecidableEq ι] :
    System (Shared (Server R × Time) ι (Moment → Operation) Outcome)
      (Move ι Instant (Operation × Time)) Unit :=
  operating.shared Operation.event

/-- A server, with the handlers of some requests. -/
abbrev received (s : Server R) (t : Time) (requests : ι → Request) :
    Shared (Server R × Time) ι (Moment → Operation) Outcome :=
  { state := (s, t), clients := fun i => handler (requests i) }

/-- The operations of a run, in the order in which they were carried out. -/
abbrev history (s : Server R) (t : Time) (requests : ι → Request)
    (moves : List (Move ι Instant (Operation × Time))) : List (Operation × Time) :=
  (operating.serial Operation.event (received s t requests) moves).map Prod.snd

/-- The handler of a request after a run. -/
abbrev handlerAfter (s : Server R) (t : Time) (requests : ι → Request)
    (moves : List (Move ι Instant (Operation × Time))) (i : ι) :
    Client (Moment → Operation) Outcome :=
  ((handling ι).after (received s t requests) moves).clients i

/-- The façade after the operations of a run. -/
abbrev facadeAfter (defaultTTL : ℤ) (s : Server R) (t : Time) (requests : ι → Request)
    (moves : List (Move ι Instant (Operation × Time))) : Facade :=
  (Facade.operating R defaultTTL).after { queues := s.queues, kv := ∅ }
    (history s t requests moves)

/-- The server follows the façade through any run. -/
theorem follows_handling (hstart : Engine.StartsEmpty cfg s.kv)
    (hrun : (handling ι).Admits (received s t requests) moves) :
    Follows cfg.defaultTTL ((handling ι).after (received s t requests) moves).state.2
      ((handling ι).after (received s t requests) moves).state.1
      (facadeAfter cfg.defaultTTL s t requests moves) := by
  obtain ⟨hserial, hstate⟩ := serial_admits hrun
  rw [hstate]
  refine (simulation (T := Facade.operating R cfg.defaultTTL)
    (fun (event : Operation × Time) outcome => if event.1.observed then some outcome else none)
    (fun state f => Follows cfg.defaultTTL state.2 state.1 f) hserial
    (follows_of_startsEmpty hstart t) (fun state f event hadm h => ?_)).2
  exact h.operate hadm

/-- **A handler with one operation** has it carried out by one move, and the façade
returns the same there. -/
theorem exists_operation (hstart : Engine.StartsEmpty cfg s.kv)
    (hrun : (handling ι).Admits (received s t requests) moves) {i : ι} {what : Moment → Operation}
    (hwhat : (plan (requests i)).operations = [what]) (hobs : ∀ m, (what m).observed = true)
    (hdone : (handlerAfter s t requests moves i).todo = []) :
    ∃ before k later, moves = before ++ Move.ask i k :: later
      ∧ ∃ outcome, (handlerAfter s t requests moves i).got = [outcome]
        ∧ (facadeAfter cfg.defaultTTL s t requests before).operate R cfg.defaultTTL (what k.1)
          = (some outcome,
              facadeAfter cfg.defaultTTL s t requests (before ++ [Move.ask i k])) := by
  obtain ⟨before, k, later, rfl, htodo, hgot⟩ := exists_ask hrun hwhat hdone
  refine ⟨before, k, later, rfl, _, hgot, ?_⟩
  obtain ⟨hbefore, hask⟩ := (admits_append _ _ _ _).mp hrun
  obtain ⟨q, rest, hq, hadm⟩ := hask.1
  rw [htodo] at hq
  obtain ⟨rfl, rfl⟩ := List.cons.inj hq
  have hfollows := follows_handling hstart hbefore
  obtain ⟨hans, _⟩ := hfollows.operate hadm
  have hafter : facadeAfter cfg.defaultTTL s t requests (before ++ [Move.ask i k])
      = ((facadeAfter cfg.defaultTTL s t requests before).operate R cfg.defaultTTL
          (what k.1)).2 := by
    unfold facadeAfter history
    rw [serial_append, serial_ask htodo, List.map_append]
    exact after_concat ..
  rw [hafter]
  refine Prod.ext (Eq.trans hans.symm ?_) rfl
  exact if_pos (hobs k.1)

/-- **Requests take effect at one instant.** Whatever the order in which the handlers
of any number of requests and the background tasks get the locks of a server whose
engine starts empty: a request that is not a batch, a `Flush` or a `Snapshot`, and
whose handler has finished, is answered as its plan says before anything is looked
up, or there is one move of the run at which the façade, as the operations before it
have left it, would carry out the request whole, with the same answer and the same
effect. -/
theorem linearizable (hstart : Engine.StartsEmpty cfg s.kv)
    (hrun : (handling ι).Admits (received s t requests) moves) {i : ι}
    (hdone : (handlerAfter s t requests moves i).todo = [])
    (hobserved : (plan (requests i)).observed = true)
    (hbatch : ∀ lines, plan (requests i) ≠ .batch lines) :
    (∃ reply, plan (requests i) = .served reply
        ∧ (plan (requests i)).respond (handlerAfter s t requests moves i).got = some reply)
      ∨ ∃ before k later, moves = before ++ Move.ask i k :: later
        ∧ ((facadeAfter cfg.defaultTTL s t requests before).carry R cfg.defaultTTL k.1
            (plan (requests i)))
          = ((plan (requests i)).respond (handlerAfter s t requests moves i).got,
              facadeAfter cfg.defaultTTL s t requests (before ++ [Move.ask i k])) := by
  cases hplan : plan (requests i) with
  | served reply => exact Or.inl ⟨reply, rfl, rfl⟩
  | queues name call status =>
    obtain ⟨before, k, later, hmoves, outcome, hgot, hoperate⟩ := exists_operation hstart hrun
      (congrArg Plan.operations hplan) (fun _ => rfl) hdone
    refine Or.inr ⟨before, k, later, hmoves, ?_⟩
    obtain ⟨houtcome, hafter⟩ := Prod.mk.inj hoperate
    rw [hgot, ← hafter, ← Option.some.inj houtcome]
    rfl
  | command line =>
    obtain ⟨before, k, later, hmoves, outcome, hgot, hoperate⟩ := exists_operation hstart hrun
      (congrArg Plan.operations hplan) (fun _ => rfl) hdone
    refine Or.inr ⟨before, k, later, hmoves, ?_⟩
    obtain ⟨houtcome, hafter⟩ := Prod.mk.inj hoperate
    rw [hgot, ← hafter, ← Option.some.inj houtcome]
    rfl
  | batch lines => exact absurd hplan (hbatch lines)
  | flush =>
    rw [hplan] at hobserved
    cases hobserved
  | snapshot =>
    rw [hplan] at hobserved
    cases hobserved

/-- A GET, and a batch that sets the key first. -/
def getAndBatch (client : Bool) : Request :=
  if client then post "/api/command" "\x7b\"command\": \"GET k\"\x7d"
  else post "/api/batch" "\x7b\"commands\": [\"SET k 1 EX 5\", \"PING\"]\x7d"

omit [TextLib] in
theorem plan_getAndBatch :
    plan (getAndBatch true) = .command (str "GET k")
      ∧ plan (getAndBatch false) = .batch [str "SET k 1 EX 5", str "PING"] := by
  constructor
  · have hroute : route (getAndBatch true).method (getAndBatch true).path = .command := by
      decide +kernel
    have htext : text "command" (getAndBatch true).body = some (str "GET k") := by decide +kernel
    unfold plan
    rw [hroute]
    dsimp only
    rw [htext]
    rfl
  · have hroute : route (getAndBatch false).method (getAndBatch false).path = .batch := by
      decide +kernel
    have hbatch : ((Api.batch (getAndBatch false).body).join.filter
        (fun commands => commands.length ≤ 1000)) = some [str "SET k 1 EX 5", str "PING"] := by
      decide +kernel
    unfold plan
    rw [hroute]
    dsimp only
    rw [hbatch]
    rfl

/-- The GET comes between the two lines of the batch. -/
def getBetween : List (Move Bool Instant (Operation × Time)) :=
  [.ask false (still 0, 0), .ask true (still 1, 1), .ask false (still 2, 2)]

omit [TextLib] in
theorem received_getAndBatch :
    received fresh 0 getAndBatch
      = { state := (fresh, 0)
          clients := fun client => Client.new (if client then [execution (str "GET k")]
            else [execution (str "SET k 1 EX 5"), execution (str "PING")]) } := by
  obtain ⟨hget, hbatch⟩ := plan_getAndBatch
  refine congrArg (Shared.mk _) (funext fun client => congrArg Client.new ?_)
  cases client with
  | true => exact congrArg Plan.operations hget
  | false => exact congrArg Plan.operations hbatch

omit [TextLib] in
theorem linearizable_getBetween :
    let _ := TextLib.ascii
    ∃ before k later, getBetween = before ++ Move.ask true k :: later
      ∧ (facadeAfter 0 fresh 0 getAndBatch before).carry ℕ 0 k.1 (plan (getAndBatch true))
        = (some (.json 200 (.command (response { value := str "1", isNumber := true }))),
            facadeAfter 0 fresh 0 getAndBatch (before ++ [Move.ask true k])) := by
  let _ := TextLib.ascii
  have hget := plan_getAndBatch.1
  have hrun : (handling Bool).Admits (received fresh 0 getAndBatch) getBetween := by
    rw [received_getAndBatch]
    refine ⟨⟨_, _, rfl, trivial, ?_⟩, ⟨_, _, rfl, trivial, ?_⟩, ⟨_, _, rfl, trivial, ?_⟩, trivial⟩
    all_goals exact ⟨by decide, by decide⟩
  have hdone : (handlerAfter fresh 0 getAndBatch getBetween true).todo = [] := by
    unfold handlerAfter
    rw [received_getAndBatch]
    rfl
  have hserved : (plan (getAndBatch true)).respond
      (handlerAfter fresh 0 getAndBatch getBetween true).got
        = some (.json 200 (.command (response { value := str "1", isNumber := true }))) := by
    unfold handlerAfter
    rw [received_getAndBatch, hget]
    decide +kernel
  obtain ⟨reply, hreply, _⟩ | hmove := linearizable fresh_startsEmpty hrun hdone (by rw [hget]; rfl)
    (fun lines hbatch => by rw [hget] at hbatch; cases hbatch)
  · rw [hget] at hreply
    cases hreply
  · rwa [hserved] at hmove

end Server

end Api

end WasmRedis
