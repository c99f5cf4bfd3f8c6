import WasmRedis.Errors

/-!
# Configuration
-/

namespace WasmRedis

open GoString

/-- The settings; durations are in nanoseconds. -/
structure Config where
  /-- Time between two flushes. -/
  flushInterval : ℤ
  /-- Time between two snapshots. -/
  snapshotInterval : ℤ
  /-- The time to live of a SET that gives none; `0` for no expiration. -/
  defaultTTL : ℤ
  /-- Time between two sweeps. -/
  expiryScanInterval : ℤ
  /-- The degree of the index trees. -/
  bTreeOrder : ℤ
  /-- The journal file. -/
  aofPath : GoString
  /-- The snapshot file. -/
  snapshotPath : GoString
  deriving DecidableEq

namespace Config

/-- One second. -/
def second : ℤ := 1000000000

/-- `Default()`. -/
def default : Config :=
  { flushInterval := second, snapshotInterval := 2 * 60 * second, defaultTTL := 0,
    expiryScanInterval := 10 * second, bTreeOrder := 32,
    aofPath := str "data/aof.log", snapshotPath := str "data/snapshot.json" }

/-- `c.Validate()`; `abs` is `filepath.Abs`, which may return an error. -/
def validate (abs : GoString → Except Err GoString) (c : Config) : Except Err Unit :=
  if c.flushInterval ≤ 0 ∨ c.snapshotInterval ≤ 0 ∨ c.expiryScanInterval ≤ 0
      ∨ c.defaultTTL < 0 ∨ c.bTreeOrder < 2 then
    .error (.new (str "intervalles positifs, TTL >= 0 et degré B-Tree >= 2 requis"))
  else
    match abs c.aofPath with
    | .error err => .error err
    | .ok aof =>
      match abs c.snapshotPath with
      | .error err => .error err
      | .ok snapshot =>
        if c.aofPath = [] ∨ c.snapshotPath = [] ∨ aof = snapshot then
          .error (.new (str "chemins AOF et snapshot distincts requis"))
        else .ok ()

/-- The defaults pass their own check, wherever the two paths differ. -/
theorem validate_default {abs : GoString → Except Err GoString} {aof snapshot : GoString}
    (ha : abs default.aofPath = .ok aof) (hs : abs default.snapshotPath = .ok snapshot)
    (hne : aof ≠ snapshot) : default.validate abs = .ok () := by
  have hpaths : default.aofPath ≠ [] ∧ default.snapshotPath ≠ [] := by decide
  rw [validate, if_neg (by decide), ha]
  show (match abs default.snapshotPath with | .error err => _ | .ok snapshot => _) = _
  rw [hs]
  show (if _ then _ else _) = _
  rw [if_neg (by rintro (h | h | h); exacts [hpaths.1 h, hpaths.2 h, hne h])]

end Config

end WasmRedis
