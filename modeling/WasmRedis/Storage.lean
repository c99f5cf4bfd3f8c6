import WasmRedis.Errors
import WasmRedis.Foundation.GoMap

/-!
# The storage interface

A storage holds a journal of operations and a snapshot. This module describes
it as the engine sees it, through the five methods of the `Storage` interface;
the files behind it are the subject of `WasmRedis.FileStorage`.

A storage call can return nil, return an error, or never return because the
process stops. The environment chooses, through the `Reply` given to the call.
An error or a stop in `AppendAOF` leaves the journal extended by some prefix of
the batch, and one in `WriteSnapshot` or `ClearAOF` leaves the call done or not
done at all.
-/

namespace WasmRedis

open GoString

/-- An operation, as the journal and the snapshot hold it. -/
structure Op where
  /-- The number of the operation; `0` in a snapshot. -/
  sequence : ℕ
  /-- `SET` or `DELETE`. -/
  kind : GoString
  /-- The key. -/
  key : GoString
  /-- The value of a SET. -/
  value : GoString
  /-- Whether the value is a number. -/
  isNumber : Bool
  /-- The deadline in nanoseconds since 1970, and `0` for none. -/
  expiresAt : Int64
  deriving DecidableEq

/-- A snapshot: the entries, and the number of the last operation they
include. -/
structure Snapshot where
  /-- The number of the last operation included. -/
  sequence : ℕ
  /-- One SET for each key. -/
  entries : GoMap GoString Op
  deriving DecidableEq

/-- What a storage holds. -/
structure Storage where
  /-- The operations appended since the journal was last cleared. -/
  journal : List Op
  /-- The last snapshot written. -/
  snapshot : Snapshot
  deriving DecidableEq

/-- How the environment lets a storage call end. `E` says how much of its
effect a call that does not return nil has had. -/
inductive Reply (E : Type) where
  /-- The call takes effect and returns nil. -/
  | ok
  /-- The call returns an error. -/
  | fail (effect : E)
  /-- The process stops in the call. -/
  | stop (effect : E)
  deriving DecidableEq

/-- How a call of a Go function of type `func() error` ends. -/
inductive Return where
  /-- It returns nil. -/
  | nil
  /-- It returns an error. -/
  | err (e : Err)
  /-- It does not return: the process stops. -/
  | stopped
  deriving DecidableEq

namespace Storage

/-- A storage on which nothing was ever written. -/
def empty : Storage := { journal := [], snapshot := { sequence := 0, entries := ∅ } }

/-- The error a failing storage call returns. -/
def failure : Err := .new (str "disque indisponible")

/-- `AppendAOF(ops)`. A call that does not return nil leaves the first `reached`
operations of the batch in the journal. -/
def appendAOF (s : Storage) (ops : List Op) : Reply ℕ → Return × Storage
  | .ok => (.nil, { s with journal := s.journal ++ ops })
  | .fail reached => (.err failure, { s with journal := s.journal ++ ops.take reached })
  | .stop reached => (.stopped, { s with journal := s.journal ++ ops.take reached })

/-- `WriteSnapshot(snapshot)`. A call that does not return nil has written the
whole snapshot, or nothing. -/
def writeSnapshot (s : Storage) (snapshot : Snapshot) : Reply Bool → Return × Storage
  | .ok => (.nil, { s with snapshot := snapshot })
  | .fail written => (.err failure, if written then { s with snapshot := snapshot } else s)
  | .stop written => (.stopped, if written then { s with snapshot := snapshot } else s)

/-- `ClearAOF()`. A call that does not return nil has emptied the journal, or
not. -/
def clearAOF (s : Storage) : Reply Bool → Return × Storage
  | .ok => (.nil, { s with journal := [] })
  | .fail cleared => (.err failure, if cleared then { s with journal := [] } else s)
  | .stop cleared => (.stopped, if cleared then { s with journal := [] } else s)

/-- `ReadSnapshot()`, which may return an error. -/
def readSnapshot (s : Storage) (fails : Bool) : Except Err Snapshot :=
  if fails then .error failure else .ok s.snapshot

/-- `ReadAOF()`, which may return an error. -/
def readAOF (s : Storage) (fails : Bool) : Except Err (List Op) :=
  if fails then .error failure else .ok s.journal

end Storage

end WasmRedis
