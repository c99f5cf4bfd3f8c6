import WasmRedis.Command
import WasmRedis.Config
import WasmRedis.Index
import WasmRedis.Storage

/-!
# The engine

The engine keeps the entries in a map, mirrors them in the index, and records
every write in a buffer that `Flush` hands to the storage. The clock is an
argument of the operations that read it, since the program reads it once for
each of them, and so is the order in which a loop visits a map.

An expired entry stays in the map until something meets it: a `Get`, a
`GetWhere`, a sweep. Each of these removes it through `remove`, and so records
a DELETE.
-/

namespace WasmRedis

open GoString

/-- An instant, in nanoseconds since 1970. A reading of the clock is one instant: what the
wall clock and the monotonic clock of a `time.Time` say is taken to agree. -/
abbrev Time := ℤ

namespace Time

/-- The zero `time.Time`, which stands for no deadline: January 1 of year 1. -/
def zero : Time := -62135596800000000000

/-- `t.IsZero()`. -/
def isZero (t : Time) : Bool := t = zero

/-- `t.UnixNano()`, which wraps around the 64 bits of its result. -/
def unixNano (t : Time) : Int64 := Int64.ofInt t

/-- `time.Unix(0, nanoseconds)`. -/
def unix (nanoseconds : Int64) : Time := nanoseconds.toInt

/-- How a deadline is stored: `0` for none. -/
def toStored (t : Time) : Int64 := if isZero t then 0 else unixNano t

/-- How a stored deadline is read: `0` is none. -/
def ofStored (nanoseconds : Int64) : Time := if nanoseconds = 0 then zero else unix nanoseconds

end Time

/-- An entry of the state. -/
structure Entry where
  /-- The key. -/
  key : GoString
  /-- The value. -/
  value : GoString
  /-- Whether the value is a number. -/
  isNumber : Bool
  /-- The deadline; the zero time for none. -/
  expiresAt : Time
  deriving DecidableEq

/-- The engine. -/
structure Engine (R : Type) where
  /-- The entries. -/
  state : GoMap GoString Entry
  /-- The storage; `none` in memory mode. -/
  store : Option Storage
  /-- The settings. -/
  cfg : Config
  /-- The operations recorded and not flushed yet. -/
  buffer : List Op
  /-- The number of the last operation recorded. It is a `uint64` in the source, and fewer
  than `2 ^ 64` operations are supposed to be recorded. -/
  sequence : ℕ
  /-- Whether `Close` has returned nil. -/
  closed : Bool
  /-- Whether the background tasks are running. -/
  running : Bool
  /-- The index of the entries. -/
  index : Index R
  deriving DecidableEq

/-- The result of a command. -/
structure Result where
  /-- The value of a GET, or a fixed answer. -/
  value : GoString := []
  /-- Whether the value is a number. -/
  isNumber : Bool := false
  /-- The entries of a GET WHERE. -/
  entries : List Entry := []
  /-- The error, if one. -/
  err : Option Err := none
  deriving DecidableEq

/-- `expired(entry, now)`: the deadline is the first instant at which the entry
is gone. -/
def expired (entry : Entry) (now : Time) : Bool :=
  !Time.isZero entry.expiresAt && !decide (now < entry.expiresAt)

variable {R : Type} [LinearOrder R] [Zero R] [Strconv R]

namespace Engine

omit [LinearOrder R] [Zero R] [Strconv R] in
/-- `New()`. -/
def new : Engine R :=
  { state := ∅, store := none, cfg := Config.default, buffer := [], sequence := 0,
    closed := false, running := false, index := Index.new Config.default.bTreeOrder }

omit [LinearOrder R] [Zero R] [Strconv R] in
/-- `NewMemory(cfg)`. -/
def newMemory (abs : GoString → Except Err GoString) (cfg : Config) :
    Except Err (Engine R) :=
  match cfg.validate abs with
  | .error err => .error err
  | .ok () => .ok { (new : Engine R) with cfg := cfg, index := Index.new cfg.bTreeOrder }

omit [LinearOrder R] [Zero R] [Strconv R] in
/-- `e.record(kind, entry)`. -/
def record (e : Engine R) (kind : GoString) (entry : Entry) : Engine R :=
  match e.store with
  | none => e
  | some _ =>
    let sequence := e.sequence + 1
    let op : Op :=
      { sequence := sequence, kind := kind, key := entry.key, value := entry.value,
        isNumber := entry.isNumber, expiresAt := Time.toStored entry.expiresAt }
    { e with sequence := sequence, buffer := e.buffer ++ [op] }

omit [Zero R] [Strconv R] in
/-- `e.remove(key)`. -/
def remove (e : Engine R) (key : GoString) : Engine R :=
  { e with index := e.index.delete key, state := e.state.erase key }.record kindDelete
    { key := key, value := [], isNumber := false, expiresAt := Time.zero }

/-- The deadline `set` gives to an entry. -/
def deadline (ttl : ℤ) (now : Time) : Time := if 0 < ttl then now + ttl else Time.zero

/-- `e.set(key, value, number, ttl)`. -/
def set (e : Engine R) (key value : GoString) (number : Bool) (ttl : ℤ) (now : Time) :
    Option Err × Engine R :=
  if ttl < 0 then (some (.new (str "le TTL ne peut pas être négatif")), e)
  else if number && !Strconv.isFiniteNumber R value then
    (some (.new (str "nombre fini requis")), e)
  else if e.closed then (some .closed, e)
  else
    let ttl := if ttl = 0 then e.cfg.defaultTTL else ttl
    let entry : Entry :=
      { key := key, value := value, isNumber := number, expiresAt := deadline ttl now }
    if 0 < ttl ∧ Time.unix (Time.unixNano entry.expiresAt) ≠ entry.expiresAt then
      (some (.new (str "date d'expiration hors des limites du stockage")), e)
    else
      match e.index.set key value number with
      | .error err => (some err, e)
      | .ok index =>
        (none, { e with index := index, state := e.state.insert key entry }.record kindSet entry)

omit [Zero R] [Strconv R] in
/-- `e.getEntry(key)`. -/
def getEntry (e : Engine R) (key : GoString) (now : Time) : Except Err Entry × Engine R :=
  match e.state.lookup key with
  | none => (.error .notFound, e)
  | some entry =>
    if expired entry now then (.error .notFound, if e.closed then e else e.remove key)
    else (.ok entry, e)

omit [Zero R] [Strconv R] in
/-- `e.Get(key)`. -/
def get (e : Engine R) (key : GoString) (now : Time) : Except Err GoString × Engine R :=
  ((e.getEntry key now).1.map Entry.value, (e.getEntry key now).2)

omit [Zero R] [Strconv R] in
/-- `e.Delete(key)`. -/
def delete (e : Engine R) (key : GoString) : Option Err × Engine R :=
  if e.closed then (some .closed, e) else (none, e.remove key)

omit [Zero R] [Strconv R] in
/-- `e.SweepExpired()`. -/
def sweepExpired (r : RangeOrder GoString) (e : Engine R) (now : Time) : ℕ × Engine R :=
  if e.closed then (0, e)
  else
    GoMap.rangeFold r e.state (0, e) (fun s key entry =>
      if expired entry now then (s.1 + 1, s.2.remove key) else s)

omit [Zero R] [Strconv R] in
/-- The loop of `GetWhere` over the keys found. A key that is not in the map
reads as the zero entry, which does not expire. -/
def collect (now : Time) : List GoString → List Entry × Engine R → List Entry × Engine R
  | [], s => s
  | key :: keys, (entries, e) =>
    let entry := (e.state.lookup key).getD
      { key := [], value := [], isNumber := false, expiresAt := Time.zero }
    if expired entry now then collect now keys (entries, if e.closed then e else e.remove key)
    else collect now keys (entries ++ [entry], e)

/-- `e.GetWhere(field, operator, operand, number)`. -/
def getWhere (r : RangeOrder GoString) (e : Engine R) (field operator operand : GoString)
    (number : Bool) (now : Time) : Except Err (List Entry) × Engine R :=
  match e.index.find r field operator operand number with
  | .error err => (.error err, e)
  | .ok keys =>
    let s := collect now keys ([], e)
    (.ok s.1, s.2)

/-- `e.Execute(cmd)`. -/
def execute (r : RangeOrder GoString) (e : Engine R) (cmd : Command) (now : Time) :
    Result × Engine R :=
  if cmd.kind = kindSet then
    match e.set cmd.key cmd.value cmd.isNumber cmd.ttl now with
    | (some err, e) => ({ err := some err }, e)
    | (none, e) => ({ value := str "OK" }, e)
  else if cmd.kind = kindGet then
    match e.getEntry cmd.key now with
    | (.ok entry, e) => ({ value := entry.value, isNumber := entry.isNumber }, e)
    | (.error err, e) => ({ err := some err }, e)
  else if cmd.kind = kindDelete then
    match e.delete cmd.key with
    | (some err, e) => ({ err := some err }, e)
    | (none, e) => ({ value := str "OK" }, e)
  else if cmd.kind = kindPing then ({ value := str "PONG" }, e)
  else if cmd.kind = kindGetWhere then
    match e.getWhere r cmd.field cmd.operator cmd.operand cmd.operandIsNumber now with
    | (.ok entries, e) => ({ entries := entries }, e)
    | (.error err, e) => ({ err := some err }, e)
  else ({ err := some .unknown }, e)

/-- `e.ExecuteString(input)`. -/
def executeString [TextLib] (r : RangeOrder GoString) (e : Engine R) (input : GoString)
    (now : Time) : Result × Engine R :=
  match parse R input with
  | .error err => ({ err := some err }, e)
  | .ok cmd => e.execute r cmd now

end Engine

end WasmRedis
