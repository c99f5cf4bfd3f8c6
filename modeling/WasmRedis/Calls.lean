import WasmRedis.Foundation.Runs
import WasmRedis.Persistence

/-!
# Calls of the engine

`Call` lists the operations of the engine with all that decides their result:
their arguments, the readings of the clock, the orders in which they visit maps
and the replies of the storage. A run of an engine is a list of calls; the
operations hold the engine's mutex from end to end, so that concurrent clients
are a matter of the order of the list.
-/

namespace WasmRedis

open GoString

/-- A call of an operation of the engine. -/
inductive Call where
  /-- `Set`, or the typed `set` behind a SET command. -/
  | set (key value : GoString) (number : Bool) (ttl : ℤ) (now : Time)
  /-- `Get`. -/
  | get (key : GoString) (now : Time)
  /-- `Delete`. -/
  | delete (key : GoString)
  /-- `GetWhere`. -/
  | getWhere (r : RangeOrder GoString) (field operator operand : GoString) (number : Bool)
      (now : Time)
  /-- `Execute`. -/
  | execute (r : RangeOrder GoString) (cmd : Command) (now : Time)
  /-- `SweepExpired`. -/
  | sweepExpired (r : RangeOrder GoString) (now : Time)
  /-- `Flush`. -/
  | flush (reply : Reply ℕ)
  /-- `Snapshot`. -/
  | snapshot (r : RangeOrder GoString) (now : GoString → Time)
      (replies : Engine.SnapshotReplies)
  /-- `Restore`. -/
  | restore (r : RestoreOrders) (now : GoString → Time) (fails : ReadFailures)
  /-- `Close`. -/
  | close (reply : Reply ℕ)

/-- What a call returns. -/
inductive Answer where
  /-- The error of `Set`, `Delete` or `Restore`; `none` is nil. -/
  | error (err : Option Err)
  /-- The value and the error of `Get`. -/
  | value (result : Except Err GoString)
  /-- The entries and the error of `GetWhere`. -/
  | entries (result : Except Err (List Entry))
  /-- The result of a command. -/
  | result (result : Result)
  /-- How many entries `SweepExpired` removed. -/
  | removed (count : ℕ)
  /-- How `Flush`, `Snapshot` or `Close` ended. -/
  | ended (how : Return)
  deriving DecidableEq

namespace Call

/-- The instants at which a call reads the clock. -/
def Reads : Call → Time → Prop
  | set _ _ _ _ now, t => t = now
  | get _ now, t => t = now
  | delete _, _ => False
  | getWhere _ _ _ _ _ now, t => t = now
  | execute _ _ now, t => t = now
  | sweepExpired _ now, t => t = now
  | flush _, _ => False
  | snapshot _ now _, t => ∃ key, t = now key
  | restore _ now _, t => ∃ key, t = now key
  | close _, _ => False

/-- The clock reads nothing before `lo` nor after `hi` during the call. -/
def Within (c : Call) (lo hi : Time) : Prop := lo ≤ hi ∧ ∀ t, c.Reads t → lo ≤ t ∧ t ≤ hi

/-- A call that reads the clock at one instant. -/
theorem within_of_reads {c : Call} {lo now hi : Time} (h : ∀ t, c.Reads t → t = now)
    (hlo : lo ≤ now) (hhi : now ≤ hi) : c.Within lo hi := by
  refine ⟨hlo.trans hhi, fun t ht => ?_⟩
  rw [h t ht]
  exact ⟨hlo, hhi⟩

end Call

variable {R : Type} [LinearOrder R] [Zero R] [Strconv R]

/-- The engine executes a call. -/
def Engine.call (e : Engine R) : Call → Answer × Engine R
  | .set key value number ttl now => Prod.map .error id (e.set key value number ttl now)
  | .get key now => Prod.map .value id (e.get key now)
  | .delete key => Prod.map .error id (e.delete key)
  | .getWhere r field operator operand number now =>
    Prod.map .entries id (e.getWhere r field operator operand number now)
  | .execute r cmd now => Prod.map .result id (e.execute r cmd now)
  | .sweepExpired r now => Prod.map .removed id (e.sweepExpired r now)
  | .flush reply => Prod.map .ended id (e.flush reply)
  | .snapshot r now replies => Prod.map .ended id (e.snapshot r now replies)
  | .restore r now fails => Prod.map .error id (e.restore r now fails)
  | .close reply => Prod.map .ended id (e.close reply)

/-- **An engine that has just been opened**: by `New`, by `NewMemory`, or by
`NewWithStorage` over a storage that holds anything. -/
inductive Engine.Opened : Engine R → Prop where
  /-- `New()`. -/
  | new : Opened Engine.new
  /-- `NewMemory(cfg)`. -/
  | memory {abs : GoString → Except Err GoString} {cfg : Config} {e : Engine R} :
      Engine.newMemory abs cfg = .ok e → Opened e
  /-- `NewWithStorage(store, cfg)`. -/
  | withStorage {abs : GoString → Except Err GoString} {store : Option Storage} {cfg : Config}
      {r : RestoreOrders} {now : GoString → Time} {fails : ReadFailures} {e : Engine R} :
      Engine.newWithStorage abs store cfg r now fails = .ok e → Opened e

/-- The engine as a system that answers calls. -/
def Engine.system : System (Engine R) Call Answer where
  admits _ _ := True
  step := Engine.call

/-- The engine is what some calls have made of one that was opened. -/
def Engine.Reachable (e : Engine R) : Prop :=
  ∃ e₀ calls, Engine.Opened e₀ ∧ e = Engine.system.after e₀ calls

theorem Engine.admits_system (e : Engine R) (calls : List Call) :
    Engine.system.Admits e calls :=
  System.admits_of_forall (fun _ _ => trivial) e calls

end WasmRedis
