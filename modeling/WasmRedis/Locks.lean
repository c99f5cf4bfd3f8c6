import WasmRedis.Errors
import WasmRedis.Foundation.LockTable
import WasmRedis.Foundation.Runs

/-!
# One process per file

`LockFiles` takes a lock for each of its paths, one after the other, and gives back those
it has taken when one of them cannot be had. Several processes do so at once. What each
of them does in between is its own, so a run is a list of turns, each of one process: a
turn of the loop of `LockFiles`, one `Unlock`, or a call.

A process never waits. What it holds is at every moment what its list of locks says
(`Sound`), whether it is taking locks, giving them back after an error, or giving them
back at the end. This is all that mutual exclusion needs; the order in which the paths
are listed plays no part in it.
-/

namespace WasmRedis

open GoString

/-! ## LockFiles -/

/-- Where a process is. The errors are those that `errors.Join` has put together. -/
inductive LockPhase where
  /-- It has not called `LockFiles`. -/
  | idle
  /-- In the loop of `LockFiles(paths...)`: the paths that are left, and the absolute
  paths whose locks are taken. -/
  | locking (paths rest locks : List GoString)
  /-- In the `unlock()` of the error path: the locks that are left to give back. -/
  | undoing (err : List Err) (locks : List GoString)
  /-- `LockFiles(paths...)` has returned an error. -/
  | failed (err : List Err)
  /-- `LockFiles(paths...)` has returned `unlock` and no error. -/
  | holding (paths locks : List GoString)
  /-- In the call of the `unlock` it returned. -/
  | unlocking (err : List Err) (locks : List GoString)
  /-- That call has returned. -/
  | released (err : List Err)
  deriving DecidableEq

namespace LockPhase

/-- The absolute paths of the locks that the process has yet to give back. -/
def locks : LockPhase → List GoString
  | locking _ _ locks | undoing _ locks | holding _ locks | unlocking _ locks => locks
  | idle | failed _ | released _ => []

/-- The process is in no call, and has no `unlock` left to call. -/
def Over : LockPhase → Prop
  | idle | failed _ | released _ => True
  | locking _ _ _ | undoing _ _ | holding _ _ | unlocking _ _ => False

theorem locks_of_over {phase : LockPhase} (h : phase.Over) : phase.locks = [] := by
  cases phase with
  | idle | failed _ | released _ => rfl
  | locking _ _ _ | undoing _ _ | holding _ _ | unlocking _ _ => exact h.elim

end LockPhase

/-- What the file system replies to one turn of the loop; `none` is nil. -/
structure LockReplies where
  /-- To `MkdirAll`. -/
  mkdirAll : Option Err
  /-- To `TryLock`, apart from whether the lock is taken. -/
  tryLock : Option Err

/-- The file whose lock stands for an absolute path. -/
def lockFile (absolute : GoString) : GoString := absolute ++ str ".lock"

/-- Processes, and the locks they share. -/
structure Processes (P : Type) where
  /-- Who holds the lock of each file. -/
  table : LockTable GoString P
  /-- Where each process is. -/
  phase : P → LockPhase

/-- What a process can do next. -/
inductive Turn (P : Type) where
  /-- It calls `LockFiles(paths...)`. -/
  | call (p : P) (paths : List GoString)
  /-- It goes through the loop of `LockFiles` once, or leaves it. -/
  | lock (p : P) (replies : LockReplies)
  /-- It calls the `unlock` it was returned. -/
  | unlock (p : P)
  /-- It goes through the loop of `unlock` once, or leaves it. -/
  | release (p : P) (err : Option Err)

namespace Processes

variable {P : Type} [DecidableEq P]

section Model

-- `filepath.Abs`, in the directory of each process
variable (abs : P → GoString → Except Err GoString)

/-- The loop of `LockFiles` at one path. -/
def lockPath (p : P) (path : GoString) (replies : LockReplies) (table : LockTable GoString P) :
    Except Err GoString × LockTable GoString P :=
  match abs p path with
  | .error err => (.error err, table)
  | .ok absolute =>
    match replies.mkdirAll with
    | some err => (.error err, table)
    | none =>
      match replies.tryLock with
      | some err => (.error err, table)
      | none =>
        match table.tryLock p (lockFile absolute) with
        | (false, table) => (.error (.new (str "stockage déjà utilisé : " ++ path)), table)
        | (true, table) => (.ok absolute, table)

/-- The process goes somewhere. -/
def goto (s : Processes P) (p : P) (phase : LockPhase) : Processes P :=
  { s with phase := Function.update s.phase p phase }

/-- A turn of the loop of `LockFiles`, or its end. -/
def lockTurn (s : Processes P) (p : P) (replies : LockReplies) : Processes P :=
  match s.phase p with
  | .locking paths [] locks => s.goto p (.holding paths locks)
  | .locking paths (path :: rest) locks =>
    match lockPath abs p path replies s.table with
    | (.error err, table) => { s with table := table }.goto p (.undoing [err] locks)
    | (.ok absolute, table) =>
      { s with table := table }.goto p (.locking paths rest (locks ++ [absolute]))
  | _ => s

/-- The call of the `unlock` that `LockFiles` has returned. -/
def unlockCall (s : Processes P) (p : P) : Processes P :=
  match s.phase p with
  | .holding _ locks => s.goto p (.unlocking [] locks)
  | _ => s

/-- A turn of the loop of `unlock`, or its end, in `LockFiles` or in a call of its own. -/
def unlockTurn (s : Processes P) (p : P) (err : Option Err) : Processes P :=
  match s.phase p with
  | .undoing errs [] => s.goto p (.failed errs)
  | .undoing errs (lock :: locks) =>
    { s with table := s.table.unlock p (lockFile lock) }.goto p
      (.undoing (errs ++ err.toList) locks)
  | .unlocking errs [] => s.goto p (.released errs)
  | .unlocking errs (lock :: locks) =>
    { s with table := s.table.unlock p (lockFile lock) }.goto p
      (.unlocking (errs ++ err.toList) locks)
  | _ => s

/-- A turn is taken. One that has nothing to do with where its process is changes
nothing. -/
def take (s : Processes P) : Turn P → Processes P
  | .call p paths => s.goto p (.locking paths paths [])
  | .lock p replies => s.lockTurn abs p replies
  | .unlock p => s.unlockCall p
  | .release p err => s.unlockTurn p err

/-- The processes as a system: `LockFiles` is called by a process that is in no call
and has unlocked what it had. -/
def system : System (Processes P) (Turn P) Unit where
  admits s
    | .call p _ => (s.phase p).Over
    | _ => True
  step s turn := ((), s.take abs turn)

end Model

/-- No process has called anything. -/
def start : Processes P := { table := fun _ => none, phase := fun _ => .idle }

/-! ## What the processes hold -/

section Invariant

variable {abs : P → GoString → Except Err GoString} {s : Processes P} {p : P}

/-- The locks of a process are those of the absolute paths of the paths it has gone
through. -/
def Resolved (abs : GoString → Except Err GoString) : LockPhase → Prop
  | .locking paths rest locks => ∃ done, paths = done ++ rest ∧ done.map abs = locks.map .ok
  | .holding paths locks => paths.map abs = locks.map .ok
  | _ => True

variable (abs) in
/-- **The invariant**: what each process holds is what its list says. -/
structure Sound (s : Processes P) : Prop where
  /-- The table says so. -/
  holds : s.table.Holds (fun p => (s.phase p).locks.map lockFile)
  /-- The list is that of its paths. -/
  resolved : ∀ p, Resolved (abs p) (s.phase p)

omit [DecidableEq P] in
theorem sound_start : Sound abs (start : Processes P) where
  holds := LockTable.holds_empty
  resolved _ := trivial

/-- A process that goes somewhere. -/
theorem Sound.goto (h : Sound abs s) {table : LockTable GoString P} {phase : LockPhase}
    (hholds : table.Holds (Function.update (fun p => (s.phase p).locks.map lockFile) p
      (phase.locks.map lockFile)))
    (hphase : Resolved (abs p) phase) : Sound abs ({ s with table := table }.goto p phase) where
  holds := by
    have hlocks : (fun q => (Function.update s.phase p phase q).locks.map lockFile)
        = Function.update (fun q => (s.phase q).locks.map lockFile) p
          (phase.locks.map lockFile) :=
      Function.comp_update (fun phase : LockPhase => phase.locks.map lockFile) s.phase p phase
    show table.Holds (fun q => (Function.update s.phase p phase q).locks.map lockFile)
    rwa [hlocks]
  resolved q := by
    show Resolved (abs q) (Function.update s.phase p phase q)
    by_cases hq : q = p
    · subst hq
      rwa [Function.update_self]
    · rw [Function.update_of_ne hq]
      exact h.resolved q

/-- It goes there with the locks it had. -/
theorem Sound.goto_same (h : Sound abs s) {phase : LockPhase}
    (hlocks : phase.locks = (s.phase p).locks) (hphase : Resolved (abs p) phase) : Sound abs (s.goto p phase) := by
  refine Sound.goto h ?_ hphase
  rw [hlocks, Function.update_eq_self]
  exact h.holds

/-- It goes there with one lock less. -/
theorem Sound.goto_unlock (h : Sound abs s) {lock : GoString} {phase : LockPhase}
    (hlocks : (s.phase p).locks = lock :: phase.locks) (hphase : Resolved (abs p) phase) :
    Sound abs ({ s with table := s.table.unlock p (lockFile lock) }.goto p phase) :=
  h.goto (h.holds.unlock (congrArg (List.map lockFile) hlocks)) hphase

variable (abs) in
omit [DecidableEq P] in
/-- What the loop of `LockFiles` can do at one path: fail and leave the table as it is,
or take the lock of the absolute path, which is free. -/
theorem lockPath_cases (p : P) (path : GoString) (replies : LockReplies)
    (table : LockTable GoString P) :
    (∃ err, lockPath abs p path replies table = (.error err, table))
      ∨ ∃ absolute, abs p path = .ok absolute ∧ table (lockFile absolute) = none
        ∧ lockPath abs p path replies table
          = (.ok absolute, Function.update table (lockFile absolute) (some p)) := by
  unfold lockPath
  cases habs : abs p path with
  | error err => exact .inl ⟨err, rfl⟩
  | ok absolute =>
    cases replies.mkdirAll with
    | some err => exact .inl ⟨err, rfl⟩
    | none =>
      cases replies.tryLock with
      | some err => exact .inl ⟨err, rfl⟩
      | none =>
        dsimp only
        obtain htry | ⟨hfree, htry⟩ := LockTable.tryLock_cases p (lockFile absolute) table
        · rw [htry]
          exact .inl ⟨_, rfl⟩
        · rw [htry]
          exact .inr ⟨absolute, rfl, hfree, rfl⟩

/-- The loop of `LockFiles` keeps the invariant. -/
theorem Sound.lockTurn (h : Sound abs s) (p : P) (replies : LockReplies) :
    Sound abs (s.lockTurn abs p replies) := by
  have hresolved := h.resolved p
  unfold Processes.lockTurn
  split
  · next paths locks hphase =>
    rw [hphase] at hresolved
    obtain ⟨done, hpaths, hdone⟩ := hresolved
    rw [List.append_nil] at hpaths
    subst hpaths
    exact h.goto_same (congrArg LockPhase.locks hphase).symm hdone
  · next paths path rest locks hphase =>
    rw [hphase] at hresolved
    obtain ⟨done, rfl, hdone⟩ := hresolved
    have hlocks : (s.phase p).locks = locks := congrArg LockPhase.locks hphase
    obtain ⟨err, hlock⟩ | ⟨absolute, habs, hfree, hlock⟩ :=
      lockPath_cases abs p path replies s.table
    · rw [hlock]
      exact h.goto_same hlocks.symm trivial
    · rw [hlock]
      refine h.goto ?_ ⟨done ++ [path], List.append_cons _ _ _, ?_⟩
      · have htaken := h.holds.taken (p := p) hfree
        rw [hlocks] at htaken
        rwa [LockPhase.locks, List.map_append]
      · rw [List.map_append, List.map_append, hdone, List.map_singleton, List.map_singleton, habs]
  · exact h

/-- The loop of `unlock` keeps the invariant. -/
theorem Sound.unlockTurn (h : Sound abs s) (p : P) (err : Option Err) :
    Sound abs (s.unlockTurn p err) := by
  unfold Processes.unlockTurn
  split
  · next errs hphase => exact h.goto_same (congrArg LockPhase.locks hphase).symm trivial
  · next errs lock locks hphase => exact h.goto_unlock (congrArg LockPhase.locks hphase) trivial
  · next errs hphase => exact h.goto_same (congrArg LockPhase.locks hphase).symm trivial
  · next errs lock locks hphase => exact h.goto_unlock (congrArg LockPhase.locks hphase) trivial
  · exact h

/-- **A turn keeps the invariant.** -/
theorem Sound.take (h : Sound abs s) {turn : Turn P} (hadmits : (system abs).admits s turn) :
    Sound abs (s.take abs turn) := by
  cases turn with
  | call p paths => exact h.goto_same (LockPhase.locks_of_over hadmits).symm ⟨[], rfl, rfl⟩
  | lock p replies => exact h.lockTurn p replies
  | unlock p =>
    show Sound abs (s.unlockCall p)
    unfold unlockCall
    split
    · next paths locks hphase => exact h.goto_same (congrArg LockPhase.locks hphase).symm trivial
    · exact h
  | release p err => exact h.unlockTurn p err

/-- The invariant holds after every run. -/
theorem sound_after {turns : List (Turn P)} (h : (system abs).Admits start turns) :
    Sound abs ((system abs).after start turns) :=
  h.invariant sound_start (fun _ _ hadmits hs => hs.take hadmits)

omit [DecidableEq P] in
/-- **A process whose `LockFiles` has succeeded** holds the lock of each of its paths. -/
theorem Sound.holding (h : Sound abs s) {paths locks : List GoString}
    (hphase : s.phase p = .holding paths locks) {path : GoString} (hmem : path ∈ paths) :
    ∃ absolute, abs p path = .ok absolute ∧ s.table (lockFile absolute) = some p := by
  have hresolved : paths.map (abs p) = locks.map .ok := by
    have hresolved := h.resolved p
    rwa [hphase] at hresolved
  have hok : abs p path ∈ locks.map .ok := hresolved ▸ List.mem_map_of_mem hmem
  obtain ⟨absolute, hlock, habs⟩ := List.mem_map.mp hok
  refine ⟨absolute, habs.symm, (h.holds.eq_some_iff p _).mpr ?_⟩
  rw [hphase]
  exact List.mem_map_of_mem hlock

omit [DecidableEq P] in
/-- A process with no lock left to give back holds none. -/
theorem Sound.holds_none (h : Sound abs s) (hlocks : (s.phase p).locks = []) (file : GoString) :
    s.table file ≠ some p := by
  rw [Ne, h.holds.eq_some_iff p file, hlocks]
  exact List.not_mem_nil

end Invariant

/-! ## The law -/

variable (abs : P → GoString → Except Err GoString)

/-- **One process per file**, after every run of any number of processes. Two of them
whose `LockFiles` have returned no error, and that have not called `unlock` since, have
no absolute path in common; each of them holds the lock of every path it listed; and one
whose `LockFiles` has returned an error holds no lock at all. -/
theorem one_process_per_file {turns : List (Turn P)} (h : (system abs).Admits start turns) :
    (∀ p p' paths paths' locks locks', p ≠ p' →
      ((system abs).after start turns).phase p = .holding paths locks →
      ((system abs).after start turns).phase p' = .holding paths' locks' →
      ∀ path ∈ paths, ∀ path' ∈ paths', ∀ absolute, abs p path = .ok absolute →
        abs p' path' ≠ .ok absolute)
    ∧ (∀ p paths locks, ((system abs).after start turns).phase p = .holding paths locks →
      ∀ path ∈ paths, ∃ absolute, abs p path = .ok absolute
        ∧ ((system abs).after start turns).table (lockFile absolute) = some p)
    ∧ ∀ p err, ((system abs).after start turns).phase p = .failed err →
      ∀ file, ((system abs).after start turns).table file ≠ some p := by
  have hs := sound_after h
  generalize (system abs).after start turns = s at hs
  refine ⟨fun p p' paths paths' locks locks' hne hphase hphase' path hmem path' hmem' absolute
    habs habs' => ?_, fun p paths locks hphase path hmem => hs.holding hphase hmem,
    fun p err hphase => hs.holds_none (congrArg LockPhase.locks hphase)⟩
  obtain ⟨a, ha, hheld⟩ := hs.holding hphase hmem
  obtain ⟨a', ha', hheld'⟩ := hs.holding hphase' hmem'
  obtain rfl : absolute = a := Except.ok.inj (habs.symm.trans ha)
  obtain rfl : absolute = a' := Except.ok.inj (habs'.symm.trans ha')
  exact hne (Option.some.inj (hheld.symm.trans hheld'))

/-- Two processes that list the same paths in opposite orders, each of which takes its
first lock, and a third one. The first fails at its second path and gives the first back,
so that the second succeeds. -/
def opposed : List (Turn ℕ) :=
  [.call 0 [str "aof", str "snapshot"], .call 1 [str "snapshot", str "aof"],
    .lock 0 ⟨none, none⟩, .lock 1 ⟨none, none⟩, .lock 0 ⟨none, none⟩, .release 0 none,
    .release 0 none, .lock 1 ⟨none, none⟩, .lock 1 ⟨none, none⟩, .call 2 [str "autre"],
    .lock 2 ⟨none, none⟩, .lock 2 ⟨none, none⟩]

theorem one_process_per_file_opposed :
    (∀ path ∈ [str "snapshot", str "aof"], path ≠ str "autre")
    ∧ ((system (fun _ path => .ok path)).after start opposed).table (lockFile (str "aof")) = some 1
    ∧ ∀ file, ((system (fun _ path => .ok path)).after start opposed).table file ≠ some 0 := by
  have hadmits : (system (fun (_ : ℕ) path => .ok path)).Admits start opposed :=
    ⟨trivial, trivial, trivial, trivial, trivial, trivial, trivial, trivial, trivial, trivial,
      trivial, trivial, trivial⟩
  obtain ⟨hexclusive, hheld, hfailed⟩ := one_process_per_file (fun _ path => .ok path) hadmits
  refine ⟨fun path hmem heq => ?_, ?_, hfailed 0 _ rfl⟩
  · exact hexclusive 1 2 _ _ _ _ (by decide) rfl rfl path hmem _ List.mem_cons_self path rfl
      (congrArg Except.ok heq.symm)
  · obtain ⟨absolute, habs, htable⟩ := hheld 1 _ _ rfl (str "aof") (by decide)
    cases habs
    exact htable

end Processes

end WasmRedis
