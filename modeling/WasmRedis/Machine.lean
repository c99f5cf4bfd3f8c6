import WasmRedis.Locks
import WasmRedis.Survival

/-!
# Processes that share the files

Several processes are started, each with the paths of a journal and of a snapshot. Each
of them takes the locks of the two files, opens an engine over them, uses it, closes it
and gives the locks back; and any of them may be stopped at any moment, in a call of
the storage too, when the system gives its locks back.

The files are no part of a process: a call of an engine finds them as they are, by
their absolute paths. `one_store` says that it finds them as it left them, if all the
processes are given the same two files: an engine is open in one process at most, and
all that the processes are told, one life after the other, is told by one ledger.

Nothing in the program stops a call of the engine that is still under way when the
engine is closed, such as that of a handler that outlives the server. It is no move of
the machine: a `Snapshot` then would clear the journal that another process writes.
-/

namespace WasmRedis

open GoString

/-! ## The machine -/

/-- The processes of the program, and what they share. -/
structure Machine (P R : Type) where
  /-- The locks, and where each process is with them. -/
  locks : Processes P
  /-- What a journal holds, by its absolute path. -/
  journals : GoString → List Op
  /-- What a snapshot holds, by its absolute path. No path is that of both. -/
  snapshots : GoString → Snapshot
  /-- An instant that the clock has reached. -/
  clock : Time
  /-- The engine that a process has open. -/
  engine : P → Option (Engine R)

/-- What the program calls while its engine is open. -/
def Call.InUse : Call → Prop
  | .restore _ _ _ => False
  | .close _ => False
  | _ => True

/-- Where a file is that is opened under a path. -/
def located (abs : GoString → Except Err GoString) (path : GoString) : GoString :=
  match abs path with
  | .ok absolute => absolute
  | .error _ => path

/-- What is told of an answer: all but what a sweep removes. -/
def Answer.told : Answer → Option Answer
  | .removed _ => none
  | answer => some answer

namespace Machine

/-- What happens in a process. -/
inductive Event (P : Type) where
  /-- A turn of `LockFiles`, or of the `unlock` it returned. -/
  | turn (turn : Turn P)
  /-- `NewWithStorage`, which ends before the instant given. -/
  | start (p : P) (r : RestoreOrders) (now : GoString → Time) (fails : ReadFailures)
      (before : Time)
  /-- A call of the engine. -/
  | call (p : P) (c : Call) (before : Time)
  /-- The `Close` that is deferred, after which the engine is no longer used. -/
  | close (p : P) (reply : Reply ℕ) (before : Time)
  /-- The process is stopped. -/
  | kill (p : P)

section Model

variable {P R : Type} [DecidableEq P] [LinearOrder R] [Zero R] [Strconv R]

-- `filepath.Abs` and the settings, in each process
variable (abs : P → GoString → Except Err GoString) (cfg : P → Config)

/-- The two files, as `LockFiles` is given them. -/
def paths (p : P) : List GoString := [(cfg p).aofPath, (cfg p).snapshotPath]

omit [DecidableEq P] [LinearOrder R] [Zero R] [Strconv R] in
/-- What the two files of a process hold. -/
def files (m : Machine P R) (p : P) : Storage where
  journal := m.journals (located (abs p) (cfg p).aofPath)
  snapshot := m.snapshots (located (abs p) (cfg p).snapshotPath)

omit [DecidableEq P] [LinearOrder R] [Zero R] [Strconv R] in
/-- The two files of a process are written. -/
def written (m : Machine P R) (p : P) (store : Storage) : Machine P R :=
  { m with
    journals := Function.update m.journals (located (abs p) (cfg p).aofPath) store.journal
    snapshots :=
      Function.update m.snapshots (located (abs p) (cfg p).snapshotPath) store.snapshot }

omit [LinearOrder R] [Zero R] [Strconv R] in
/-- The process is no more: it has no engine, and the system gives its locks back. -/
def gone (m : Machine P R) (p : P) : Machine P R :=
  { m with
    locks := { table := m.locks.table.drop p, phase := Function.update m.locks.phase p .idle }
    engine := Function.update m.engine p none }

omit [DecidableEq P] [LinearOrder R] [Zero R] [Strconv R] in
/-- The engine of a process, over its files as they are. -/
def opened (m : Machine P R) (p : P) (e : Engine R) : Engine R :=
  { e with store := some (m.files abs cfg p) }

omit [LinearOrder R] [Zero R] [Strconv R] in
/-- The order in which the program does things: it takes the locks first, then opens
the engine, and gives the locks back when it has no engine left. The engine is not
called any more when it has been closed. -/
def admits (m : Machine P R) : Event P → Prop
  | .turn (.call p files) => files = paths cfg p ∧ (m.locks.phase p).Over
  | .turn (.unlock p) => m.engine p = none
  | .turn _ => True
  | .start p _ now _ before =>
    (∃ locks, m.locks.phase p = .holding (paths cfg p) locks) ∧ m.engine p = none
      ∧ m.clock ≤ before ∧ ∀ key, m.clock ≤ now key ∧ now key ≤ before
  | .call p c before => (∃ e, m.engine p = some e) ∧ c.InUse ∧ c.Within m.clock before
  | .close p _ before => (∃ e, m.engine p = some e) ∧ m.clock ≤ before
  | .kill _ => True

/-- A call, and how the engine goes on. -/
def called (m : Machine P R) (p : P) (c : Call) (before : Time) (next : Option (Engine R)) :
    Machine P R :=
  match m.engine p with
  | none => m
  | some e =>
    let store := ((m.opened abs cfg p e).call c).2.store.getD Storage.empty
    let m' := { m.written abs cfg p store with
      clock := before
      engine := Function.update m.engine p next }
    if ((m.opened abs cfg p e).call c).1 = .ended .stopped then m'.gone p else m'

/-- One event, and what is told of the storage meanwhile. -/
def step (m : Machine P R) : Event P → List (Happening × Option Answer) × Machine P R
  | .turn turn => ([], { m with locks := m.locks.take abs turn })
  | .start p r now fails before =>
    match Engine.newWithStorage (R := R) (abs p) (some (m.files abs cfg p)) (cfg p) r now fails with
    | .error err =>
      ([(.start (abs p) (cfg p) r now fails before, some (.error (some err)))],
        { m with clock := before })
    | .ok e =>
      ([(.start (abs p) (cfg p) r now fails before, some (.error none))],
        { m with clock := before, engine := Function.update m.engine p (some e) })
  | .call p c before =>
    match m.engine p with
    | none => ([], m)
    | some e =>
      ([(.call c before, ((m.opened abs cfg p e).call c).1.told)],
        m.called abs cfg p c before (some ((m.opened abs cfg p e).call c).2))
  | .close p reply before =>
    match m.engine p with
    | none => ([], m)
    | some e =>
      ([(.call (.close reply) before, ((m.opened abs cfg p e).call (.close reply)).1.told),
          (.stop, none)],
        m.called abs cfg p (.close reply) before none)
  | .kill p =>
    (if (m.engine p).isSome then [(.stop, none)] else [], m.gone p)

omit [DecidableEq P] [LinearOrder R] [Zero R] [Strconv R] in
/-- Before anything has happened. -/
def init (t : Time) : Machine P R where
  locks := Processes.start
  journals _ := []
  snapshots _ := { sequence := 0, entries := ∅ }
  clock := t
  engine _ := none

/-- The machine as a system. -/
def system : System (Machine P R) (Event P) (List (Happening × Option Answer)) where
  admits := admits cfg
  step := step abs cfg

end Model

/-! ## The locks -/

section Locks

variable {P : Type} [DecidableEq P] {abs : P → GoString → Except Err GoString} {s : Processes P}
  {p q : P}

theorem phase_goto_of_ne (h : p ≠ q) (phase : LockPhase) :
    (s.goto q phase).phase p = s.phase p :=
  Function.update_of_ne h ..

/-- A process that holds its locks holds them until it calls `unlock`. -/
theorem phase_take {turn : Turn P} {files locks : List GoString}
    (hphase : s.phase p = .holding files locks) (hcall : ∀ files, turn ≠ .call p files)
    (hunlock : turn ≠ .unlock p) : (s.take abs turn).phase p = .holding files locks := by
  cases turn with
  | call q files' =>
    have hne : p ≠ q := fun hpq => hcall files' (hpq ▸ rfl)
    exact (phase_goto_of_ne hne _).trans hphase
  | unlock q =>
    have hne : p ≠ q := fun hpq => hunlock (hpq ▸ rfl)
    show (s.unlockCall q).phase p = _
    unfold Processes.unlockCall
    split
    · exact (phase_goto_of_ne hne _).trans hphase
    · exact hphase
  | lock q replies =>
    show (s.lockTurn abs q replies).phase p = _
    unfold Processes.lockTurn
    by_cases hpq : p = q
    · subst hpq
      rw [hphase]
      exact hphase
    · split
      · exact (phase_goto_of_ne hpq _).trans hphase
      · split
        · exact (phase_goto_of_ne hpq _).trans hphase
        · exact (phase_goto_of_ne hpq _).trans hphase
      · exact hphase
  | release q err =>
    show (s.unlockTurn q err).phase p = _
    unfold Processes.unlockTurn
    by_cases hpq : p = q
    · subst hpq
      rw [hphase]
      exact hphase
    · split
      · exact (phase_goto_of_ne hpq _).trans hphase
      · exact (phase_goto_of_ne hpq _).trans hphase
      · exact (phase_goto_of_ne hpq _).trans hphase
      · exact (phase_goto_of_ne hpq _).trans hphase
      · exact hphase

/-- A process that is no more holds nothing. -/
theorem sound_gone (h : Processes.Sound abs s) (p : P) :
    Processes.Sound abs
      { table := s.table.drop p, phase := Function.update s.phase p .idle } where
  holds := by
    have hlocks : (fun q => (Function.update s.phase p .idle q).locks.map lockFile)
        = Function.update (fun q => (s.phase q).locks.map lockFile) p [] :=
      Function.comp_update (fun phase : LockPhase => phase.locks.map lockFile) s.phase p .idle
    show LockTable.Holds (s.table.drop p)
      (fun q => (Function.update s.phase p .idle q).locks.map lockFile)
    rw [hlocks]
    exact h.holds.drop p
  resolved q := by
    show Processes.Resolved (abs q) (Function.update s.phase p .idle q)
    by_cases hq : q = p
    · subst hq
      rw [Function.update_self]
      trivial
    · rw [Function.update_of_ne hq]
      exact h.resolved q

end Locks

/-! ## The invariant -/

section Invariant

variable {P R : Type} [DecidableEq P] [LinearOrder R] [Zero R] [Strconv R]
  {abs : P → GoString → Except Err GoString} {cfg : P → Config} {journal snapshot : GoString}
  {m : Machine P R} {w : World R}

variable (abs cfg journal snapshot) in
/-- **The processes are given the same two files.** -/
def Sharing : Prop :=
  ∀ p, (∀ absolute, abs p (cfg p).aofPath = .ok absolute → absolute = journal)
    ∧ ∀ absolute, abs p (cfg p).snapshotPath = .ok absolute → absolute = snapshot

variable (journal snapshot) in
/-- What the two files hold. -/
def shared (m : Machine P R) : Storage where
  journal := m.journals journal
  snapshot := m.snapshots snapshot

variable (journal snapshot) in
/-- What the machine looks like to the one process that may use the files. -/
def Looks (m : Machine P R) : Phase R → Prop
  | .down store => store = m.shared journal snapshot ∧ ∀ p, m.engine p = none
  | .up e => e.closed = false ∧ ∃ p e', m.engine p = some e'
      ∧ e = { e' with store := some (m.shared journal snapshot) }
      ∧ ∀ q, q ≠ p → m.engine q = none

variable (abs cfg journal snapshot) in
/-- **The machine and the world**: there is one life at a time. -/
structure Fits (m : Machine P R) (w : World R) : Prop where
  /-- The locks are right. -/
  sound : Processes.Sound abs m.locks
  /-- An engine is open in a process that holds its locks. -/
  holding : ∀ p e, m.engine p = some e →
    ∃ locks, m.locks.phase p = .holding (paths cfg p) locks
  /-- The clocks agree. -/
  clock : w.clock = m.clock
  /-- The world is that of the process with an engine. -/
  looks : Looks journal snapshot m w.phase

omit [DecidableEq P] [LinearOrder R] [Zero R] [Strconv R] in
/-- **Who holds the locks** holds that of the journal, and finds the files where they
are. -/
theorem Sharing.of_holding (hshare : Sharing abs cfg journal snapshot)
    (hsound : Processes.Sound abs m.locks) {p : P} {locks : List GoString}
    (hphase : m.locks.phase p = .holding (paths cfg p) locks) :
    m.locks.table (lockFile journal) = some p
      ∧ located (abs p) (cfg p).aofPath = journal
      ∧ located (abs p) (cfg p).snapshotPath = snapshot := by
  obtain ⟨absolute, habs, hlock⟩ := hsound.holding hphase (List.mem_cons_self)
  obtain ⟨absolute', habs', _⟩ := hsound.holding hphase
    (List.mem_cons_of_mem _ (List.mem_singleton_self _))
  obtain rfl := (hshare p).1 absolute habs
  obtain rfl := (hshare p).2 absolute' habs'
  unfold located
  rw [habs, habs']
  exact ⟨hlock, rfl, rfl⟩

omit [DecidableEq P] [LinearOrder R] [Zero R] [Strconv R] in
/-- A process that holds the locks has the two files. -/
theorem Sharing.files (hshare : Sharing abs cfg journal snapshot)
    (hsound : Processes.Sound abs m.locks) {p : P} {locks : List GoString}
    (hphase : m.locks.phase p = .holding (paths cfg p) locks) :
    m.files abs cfg p = m.shared journal snapshot := by
  obtain ⟨_, hjournal, hsnapshot⟩ := hshare.of_holding hsound hphase
  unfold Machine.files shared
  rw [hjournal, hsnapshot]

omit [DecidableEq P] [LinearOrder R] [Zero R] [Strconv R] in
/-- What it writes is what the two files hold. -/
theorem Sharing.written (hshare : Sharing abs cfg journal snapshot)
    (hsound : Processes.Sound abs m.locks) {p : P} {locks : List GoString}
    (hphase : m.locks.phase p = .holding (paths cfg p) locks) (store : Storage) :
    (m.written abs cfg p store).shared journal snapshot = store := by
  obtain ⟨_, hjournal, hsnapshot⟩ := hshare.of_holding hsound hphase
  unfold Machine.written shared
  dsimp only
  rw [hjournal, hsnapshot, Function.update_self, Function.update_self]

omit [DecidableEq P] [LinearOrder R] [Zero R] [Strconv R] in
/-- **An engine is open in one process at most.** -/
theorem Sharing.engine_unique (hshare : Sharing abs cfg journal snapshot)
    (hsound : Processes.Sound abs m.locks)
    (hholding : ∀ p e, m.engine p = some e →
      ∃ locks, m.locks.phase p = .holding (paths cfg p) locks) {p q : P}
    {e : Engine R} {locks : List GoString} (hp : m.locks.phase p = .holding (paths cfg p) locks)
    (hq : m.engine q = some e) : p = q := by
  obtain ⟨locks', hphase'⟩ := hholding q e hq
  obtain ⟨hpj, _⟩ := hshare.of_holding hsound hp
  obtain ⟨hqj, _⟩ := hshare.of_holding hsound hphase'
  exact Option.some.inj (hpj.symm.trans hqj)

omit [DecidableEq P] [LinearOrder R] [Zero R] [Strconv R] in
/-- The engine that is open is that of the world. -/
theorem Looks.up {phase : Phase R} (h : Looks journal snapshot m phase) {p : P} {e : Engine R}
    (he : m.engine p = some e) :
    phase = .up { e with store := some (m.shared journal snapshot) } ∧ e.closed = false
      ∧ ∀ q, q ≠ p → m.engine q = none := by
  cases phase with
  | down store =>
    rw [h.2 p] at he
    cases he
  | up e₀ =>
    obtain ⟨hopen, p', e', he', rfl, hothers⟩ := h
    obtain rfl : p = p' := by
      by_contra hne
      rw [hothers p hne] at he
      cases he
    obtain rfl := Option.some.inj (he.symm.trans he')
    exact ⟨rfl, hopen, hothers⟩

omit [DecidableEq P] [LinearOrder R] [Zero R] [Strconv R] in
/-- Where no engine is open, the world is down. -/
theorem Looks.down {phase : Phase R} (h : Looks journal snapshot m phase)
    (hnone : ∀ p, m.engine p = none) : phase = .down (m.shared journal snapshot) := by
  cases phase with
  | down store => rw [h.1]
  | up e =>
    obtain ⟨_, p, e', he', _⟩ := h
    rw [hnone p] at he'
    cases he'

omit [DecidableEq P] [LinearOrder R] [Zero R] [Strconv R] in
/-- The engine of a process is that of the world. -/
theorem Fits.up (h : Fits abs cfg journal snapshot m w)
    (hshare : Sharing abs cfg journal snapshot) {p : P} {e : Engine R}
    (he : m.engine p = some e) :
    w.phase = .up (m.opened abs cfg p e) ∧ e.closed = false
      ∧ ∀ q, q ≠ p → m.engine q = none := by
  obtain ⟨locks, hphase⟩ := h.holding p e he
  unfold opened
  rw [hshare.files h.sound hphase]
  exact h.looks.up he

omit [LinearOrder R] [Zero R] [Strconv R] in
/-- The locks and the engines when a process is no more. -/
theorem holding_gone (h : ∀ p e, m.engine p = some e →
      ∃ locks, m.locks.phase p = .holding (paths cfg p) locks) (p : P) :
    ∀ q e, (m.gone p).engine q = some e →
      ∃ locks, (m.gone p).locks.phase q = .holding (paths cfg q) locks := by
  intro q e he
  unfold gone at he ⊢
  dsimp only at he ⊢
  by_cases hq : q = p
  · subst hq
    rw [Function.update_self] at he
    cases he
  · rw [Function.update_of_ne hq] at he ⊢
    exact h q e he

/-- A call that is in use leaves the engine open. -/
theorem closed_call {e : Engine R} (hopen : e.closed = false) {c : Call} (huse : c.InUse)
    {lo hi : Time} (hwithin : c.Within lo hi) : (e.call c).2.closed = false := by
  have honly : ∀ {e' : Engine R}, Engine.OnlyStorage e e' → e'.closed = false := by
    rintro e' ⟨store, buffer, rfl⟩
    exact hopen
  cases c with
  | flush reply => exact honly (Engine.flush_only e reply)
  | snapshot r now replies => exact honly (Engine.snapshot_only r e now replies)
  | restore r now fails => exact huse.elim
  | close reply => exact huse.elim
  | _ =>
    have hchanges : Engine.Changes lo hi e (e.call _).2 := Engine.call_changes id hwithin
    exact hchanges.frame.2.2.trans hopen

theorem called_eq {p : P} {c : Call} {before : Time} {next : Option (Engine R)} {e : Engine R}
    (he : m.engine p = some e) :
    m.called abs cfg p c before next
      = if ((m.opened abs cfg p e).call c).1 = .ended .stopped
        then gone { m.written abs cfg p
                      (((m.opened abs cfg p e).call c).2.store.getD Storage.empty) with
                    clock := before
                    engine := Function.update m.engine p next } p
        else { m.written abs cfg p
                 (((m.opened abs cfg p e).call c).2.store.getD Storage.empty) with
               clock := before
               engine := Function.update m.engine p next } := by
  unfold called
  rw [he]

/-- A world that is up has a storage. -/
theorem store_of_safe (h : w.Safe) {e : Engine R} (hup : w.phase = .up e) :
    ∃ store, e.store = some store := by
  obtain ⟨_, hphase⟩ := h
  rw [hup] at hphase
  obtain ⟨_, _, _, _, htracks⟩ := hphase
  obtain ⟨store, hstore, _⟩ := htracks.keeps
  exact ⟨store, hstore⟩

/-- **A call** leaves a machine and a world that go together. -/
theorem Fits.called (h : Fits abs cfg journal snapshot m w)
    (hshare : Sharing abs cfg journal snapshot) {p : P} {e : Engine R} (he : m.engine p = some e)
    {c : Call} {before : Time} (hsafe : (w.step (.call c before)).2.Safe)
    (hopen : ((m.opened abs cfg p e).call c).2.closed = false) :
    Fits abs cfg journal snapshot
      (m.called abs cfg p c before (some ((m.opened abs cfg p e).call c).2))
      (w.step (.call c before)).2 := by
  obtain ⟨hup, _, hothers⟩ := h.up hshare he
  obtain ⟨locks, hphase⟩ := h.holding p e he
  have hwritten := hshare.written h.sound hphase
  rw [World.step_call hup] at hsafe ⊢
  rw [called_eq he]
  have hholding : ∀ q e',
      Function.update m.engine p (some ((m.opened abs cfg p e).call c).2) q = some e' →
        ∃ locks, m.locks.phase q = .holding (paths cfg q) locks := by
    intro q e' he'
    by_cases hq : q = p
    · subst hq
      exact h.holding q e he
    · rw [Function.update_of_ne hq] at he'
      exact h.holding q e' he'
  by_cases hstop : ((m.opened abs cfg p e).call c).1 = .ended .stopped
  · rw [if_pos hstop, if_pos hstop]
    refine ⟨sound_gone h.sound p, holding_gone hholding p, rfl, (hwritten _).symm, fun q => ?_⟩
    show Function.update (Function.update m.engine p _) p none q = none
    by_cases hq : q = p
    · subst hq
      rw [Function.update_self]
    · rw [Function.update_of_ne hq, Function.update_of_ne hq, hothers q hq]
  · rw [if_neg hstop] at hsafe ⊢
    rw [if_neg hstop]
    obtain ⟨store, hstore⟩ := store_of_safe hsafe rfl
    refine ⟨h.sound, hholding, rfl, hopen, p, _, Function.update_self .., ?_, fun q hq => ?_⟩
    · have hsame : some ((m.written abs cfg p
          (((m.opened abs cfg p e).call c).2.store.getD Storage.empty)).shared journal snapshot)
          = ((m.opened abs cfg p e).call c).2.store := by
        rw [hwritten, hstore, Option.getD_some]
      exact congrArg (fun store => { ((m.opened abs cfg p e).call c).2 with store := store })
        hsame.symm
    · show Function.update m.engine p _ q = none
      rw [Function.update_of_ne hq, hothers q hq]

/-- **A close**, too, when the process has no engine any more. -/
theorem Fits.closed (h : Fits abs cfg journal snapshot m w)
    (hshare : Sharing abs cfg journal snapshot) {p : P} {e : Engine R} (he : m.engine p = some e)
    {c : Call} {before : Time} :
    Fits abs cfg journal snapshot (m.called abs cfg p c before none)
      ((w.step (.call c before)).2.step .stop).2 := by
  obtain ⟨hup, _, hothers⟩ := h.up hshare he
  obtain ⟨locks, hphase⟩ := h.holding p e he
  have hwritten := hshare.written h.sound hphase
  have hnone : ∀ q, Function.update m.engine p none q = none := by
    intro q
    by_cases hq : q = p
    · subst hq
      rw [Function.update_self]
    · rw [Function.update_of_ne hq, hothers q hq]
  have hholding : ∀ q e', Function.update m.engine p none q = some e' →
      ∃ locks, m.locks.phase q = .holding (paths cfg q) locks := by
    intro q e' he'
    rw [hnone q] at he'
    cases he'
  rw [World.step_call hup, called_eq he]
  unfold World.step
  by_cases hstop : ((m.opened abs cfg p e).call c).1 = .ended .stopped
  · rw [if_pos hstop, if_pos hstop]
    refine ⟨sound_gone h.sound p, holding_gone hholding p, rfl, (hwritten _).symm, fun q => ?_⟩
    show Function.update (Function.update m.engine p none) p none q = none
    rw [Function.update_idem]
    exact hnone q
  · rw [if_neg hstop, if_neg hstop]
    exact ⟨h.sound, hholding, rfl, (hwritten _).symm, hnone⟩

omit [LinearOrder R] [Zero R] [Strconv R] in
/-- A turn of the locks. -/
theorem Fits.turn (h : Fits abs cfg journal snapshot m w) {turn : Turn P}
    (hadm : admits cfg m (.turn turn)) :
    Fits abs cfg journal snapshot { m with locks := m.locks.take abs turn } w where
  sound := by
    refine h.sound.take ?_
    cases turn with
    | call p files => exact hadm.2
    | _ => trivial
  holding p e he := by
    obtain ⟨locks, hphase⟩ := h.holding p e he
    refine ⟨locks, phase_take hphase ?_ ?_⟩
    · rintro files rfl
      obtain ⟨_, hover⟩ := hadm
      rw [hphase] at hover
      exact hover
    · rintro rfl
      exact absurd (he.symm.trans hadm) (Option.some_ne_none e)
  clock := h.clock
  looks := by
    have hlooks := h.looks
    cases hphase : w.phase with
    | down store =>
      rw [hphase] at hlooks
      exact hlooks
    | up e =>
      rw [hphase] at hlooks
      exact hlooks

/-- A process is stopped. -/
theorem Fits.kill (h : Fits abs cfg journal snapshot m w) (p : P) :
    Fits abs cfg journal snapshot (m.gone p)
      (if (m.engine p).isSome then (w.step .stop).2 else w) := by
  have hsound := sound_gone h.sound p
  have hholding := holding_gone h.holding p
  cases he : m.engine p with
  | none =>
    have hengine : (m.gone p).engine = m.engine := by
      unfold gone
      rw [← he, Function.update_eq_self]
    rw [if_neg (by simp)]
    refine ⟨hsound, hholding, h.clock, ?_⟩
    have hlooks := h.looks
    cases hphase : w.phase with
    | down store =>
      rw [hphase] at hlooks
      exact ⟨hlooks.1, by rw [hengine]; exact hlooks.2⟩
    | up e =>
      rw [hphase] at hlooks
      obtain ⟨hopen, q, e', he', heq, hothers⟩ := hlooks
      exact ⟨hopen, q, e', by rw [hengine]; exact he', heq, by rw [hengine]; exact hothers⟩
  | some e =>
    obtain ⟨hup, _, hothers⟩ := h.looks.up he
    rw [if_pos (by simp)]
    unfold World.step
    rw [hup]
    refine ⟨hsound, hholding, h.clock, rfl, fun q => ?_⟩
    show Function.update m.engine p none q = none
    by_cases hq : q = p
    · subst hq
      rw [Function.update_self]
    · rw [Function.update_of_ne hq, hothers q hq]

/-- **A start**: nobody else has an engine open. -/
theorem Fits.start (h : Fits abs cfg journal snapshot m w)
    (hshare : Sharing abs cfg journal snapshot) {p : P} {r : RestoreOrders}
    {now : GoString → Time} {fails : ReadFailures} {before : Time}
    (hadm : admits cfg m (.start p r now fails before)) :
    w.phase = .down (m.files abs cfg p)
      ∧ (step abs cfg m (.start p r now fails before)).1
        = [(.start (abs p) (cfg p) r now fails before,
            w.reply (.start (abs p) (cfg p) r now fails before))]
      ∧ Fits abs cfg journal snapshot (step abs cfg m (.start p r now fails before)).2
        (w.step (.start (abs p) (cfg p) r now fails before)).2 := by
  obtain ⟨⟨locks, hphase⟩, hnone, _, _⟩ := hadm
  have hall : ∀ q, m.engine q = none := by
    intro q
    cases he : m.engine q with
    | none => rfl
    | some e =>
      obtain rfl := hshare.engine_unique h.sound h.holding hphase he
      rw [hnone] at he
      cases he
  have hfiles := hshare.files h.sound hphase
  have hdown : w.phase = .down (m.files abs cfg p) := by
    rw [hfiles]
    exact h.looks.down hall
  refine ⟨hdown, ?_⟩
  unfold step World.step World.reply
  rw [hdown]
  dsimp only
  cases hnew : Engine.newWithStorage (R := R) (abs p) (some (m.files abs cfg p)) (cfg p) r now
      fails with
  | error err => exact ⟨rfl, h.sound, h.holding, rfl, hfiles, hall⟩
  | ok e =>
    refine ⟨rfl, h.sound, fun q e' he' => ?_, rfl, ?_, p, e, Function.update_self .., ?_,
      fun q hq => (Function.update_of_ne hq ..).trans (hall q)⟩
    · by_cases hq : q = p
      · subst hq
        exact ⟨locks, hphase⟩
      · dsimp only at he'
        rw [Function.update_of_ne hq, hall q] at he'
        cases he'
    · obtain ⟨_, state, sequence, index, _, _, rfl⟩ := Engine.newWithStorage_restored hnew
      rfl
    · have hstore : e.store = some (m.files abs cfg p) := by
        obtain ⟨_, state, sequence, index, _, _, rfl⟩ := Engine.newWithStorage_restored hnew
        rfl
      rw [hfiles] at hstore
      exact congrArg (fun store => { e with store := store }) hstore

variable [TextLib] {l : Ledger}

omit [TextLib] in
/-- What is told of a call. -/
theorem reply_called {e : Engine R} (hup : w.phase = .up e) (c : Call) (before : Time) :
    w.reply (.call c before) = (e.call c).1.told := by
  unfold World.reply
  rw [hup]
  dsimp only
  cases (e.call c).1 <;> rfl

/-- **One event of the machine** is some events of the ledger. -/
theorem kept_step (hshare : Sharing abs cfg journal snapshot) {event : Event P}
    (hadm : admits cfg m event)
    (h : ∃ w : World R, Fits abs cfg journal snapshot m w ∧ w.Kept l) :
    ∃ l', (Ledger.specification R).Runs l (step abs cfg m event).1 l'
      ∧ ∃ w : World R, Fits abs cfg journal snapshot (step abs cfg m event).2 w ∧ w.Kept l' := by
  obtain ⟨w, hfits, hkept⟩ := h
  cases event with
  | turn turn => exact ⟨l, .nil, w, hfits.turn hadm, hkept⟩
  | start p r now fails before =>
    obtain ⟨hdown, htold, hfits'⟩ := hfits.start hshare hadm
    obtain ⟨_, _, hbefore, hnow⟩ := hadm
    rw [← hfits.clock] at hbefore hnow
    obtain ⟨l', hallows, hkept'⟩ := World.kept_step
      (show World.lives.admits w (.start (abs p) (cfg p) r now fails before) from
        ⟨⟨⟨_, hdown⟩, hbefore, hnow⟩, trivial⟩) hkept
    rw [htold]
    exact ⟨l', .cons hallows .nil, _, hfits', hkept'⟩
  | call p c before =>
    obtain ⟨⟨e, he⟩, huse, hwithin⟩ := hadm
    obtain ⟨hup, hopen, _⟩ := hfits.up hshare he
    have horderly : w.Orderly (.call c before) := by
      cases c with
      | restore r now fails => exact huse.elim
      | _ => exact fun e' he' => Phase.up.inj (hup.symm.trans he') ▸ hopen
    obtain ⟨l', hallows, hkept'⟩ := World.kept_step
      (show World.lives.admits w (.call c before) from
        ⟨⟨⟨_, hup⟩, hfits.clock ▸ hwithin⟩, horderly⟩) hkept
    rw [reply_called hup] at hallows
    have hopened : (m.opened abs cfg p e).closed = false := hopen
    have hfits' := hfits.called hshare he hkept'.safe (closed_call hopened huse hwithin)
    unfold step
    dsimp only
    rw [he]
    exact ⟨l', .cons hallows .nil, _, hfits', hkept'⟩
  | close p reply before =>
    obtain ⟨⟨e, he⟩, hbefore⟩ := hadm
    obtain ⟨hup, hopen, _⟩ := hfits.up hshare he
    obtain ⟨l', hallows, hkept'⟩ := World.kept_step
      (show World.lives.admits w (.call (.close reply) before) from
        ⟨⟨⟨_, hup⟩, hfits.clock ▸ hbefore, fun _ hreads => hreads.elim⟩,
          fun e' he' => Phase.up.inj (hup.symm.trans he') ▸ hopen⟩) hkept
    obtain ⟨l'', hallows', hkept''⟩ := World.kept_step
      (show World.lives.admits (w.step (.call (.close reply) before)).2 .stop from
        ⟨trivial, trivial⟩) hkept'
    rw [reply_called hup] at hallows
    unfold step
    dsimp only
    rw [he]
    exact ⟨l'', .cons hallows (.cons hallows' .nil), _, hfits.closed hshare he, hkept''⟩
  | kill p =>
    have hfits' := hfits.kill p
    unfold step
    dsimp only
    by_cases he : (m.engine p).isSome
    · obtain ⟨l', hallows, hkept'⟩ := World.kept_step
        (show World.lives.admits w .stop from ⟨trivial, trivial⟩) hkept
      rw [if_pos he] at hfits'
      rw [if_pos he]
      exact ⟨l', .cons hallows .nil, _, hfits', hkept'⟩
    · rw [if_neg he] at hfits'
      rw [if_neg he]
      exact ⟨l, .nil, _, hfits', hkept⟩

omit [DecidableEq P] [LinearOrder R] [Zero R] [Strconv R] [TextLib] in
theorem fits_init (t : Time) :
    Fits abs cfg journal snapshot (init t : Machine P R) (World.init t) where
  sound := Processes.sound_start
  holding _ _ he := by cases he
  clock := rfl
  looks := ⟨rfl, fun _ => rfl⟩

/-- **One store for all.** In every run of any number of processes that are given the
same journal and the same snapshot, from empty files and with a clock that starts after
1970 and never goes back: at no time is an engine open in two of them; and one line of
choices of the ledger gives all that they are told, by the calls and the starts of all
the lives, in the order in which they were made. So what one process is told was kept,
the next one finds, whichever processes were refused, failed or were stopped meanwhile. -/
theorem one_store {t : Time} (ht : 0 ≤ t) (hshare : Sharing abs cfg journal snapshot)
    {events : List (Event P)}
    (hrun : (system abs cfg).Admits (init t : Machine P R) events) :
    (∃ l, (Ledger.specification R).Runs Ledger.new
        ((system abs cfg).answers (init t : Machine P R) events).flatten l)
      ∧ ∀ p q e e', ((system abs cfg).after (init t : Machine P R) events).engine p = some e →
        ((system abs cfg).after (init t : Machine P R) events).engine q = some e' → p = q := by
  obtain ⟨l, hruns, w, hfits, _⟩ := Specification.refines_flatten
    (T := Ledger.specification R)
    (fun m l => ∃ w : World R, Fits abs cfg journal snapshot m w ∧ w.Kept l) hrun
    ⟨World.init t, fits_init t, World.kept_init ht⟩
    (fun m l event hadm h => kept_step hshare hadm h)
  refine ⟨⟨l, hruns⟩, fun p q e e' he he' => ?_⟩
  obtain ⟨_, _, hothers⟩ := hfits.looks.up he'
  by_contra hne
  rw [hothers p hne] at he
  cases he

end Invariant

/-- The second process is refused while the first one runs, and starts after it. -/
def refusedFirst : List (Event Bool) :=
  let files := [Config.default.aofPath, Config.default.snapshotPath]
  let next (p : Bool) : Event Bool := .turn (.lock p ⟨none, none⟩)
  let back (p : Bool) : Event Bool := .turn (.release p none)
  [.turn (.call true files), next true, next true, next true,
    .start true RestoreOrders.sorted (fun _ => 0) {} 0,
    .turn (.call false files), next false, back false,
    .call true (.set (str "a") (str "1") false 0 1) 1, .close true .ok 2,
    .turn (.unlock true), back true, back true, back true,
    .turn (.call false files), next false, next false, next false,
    .start false RestoreOrders.sorted (fun _ => 3) {} 3, .call false (.get (str "a") 4) 4]

theorem one_store_refusedFirst :
    let _ := TextLib.ascii
    ∃ l, (Ledger.specification ℕ).Runs Ledger.new
      ((system (fun _ => Except.ok) (fun _ => Config.default)).answers
        (init 0 : Machine Bool ℕ) refusedFirst).flatten l := by
  intro _
  have hrun : (system (fun _ => Except.ok) (fun _ => Config.default)).Admits
      (init 0 : Machine Bool ℕ) refusedFirst := by
    refine ⟨⟨rfl, trivial⟩, trivial, trivial, trivial,
      ⟨⟨_, rfl⟩, rfl, le_rfl, fun _ => ⟨le_rfl, le_rfl⟩⟩,
      ⟨rfl, trivial⟩, trivial, trivial,
      ⟨⟨_, rfl⟩, trivial, Call.within_of_reads (fun _ h => h) ?_ (le_refl (1 : ℤ))⟩,
      ⟨⟨_, rfl⟩, ?_⟩,
      rfl, trivial, trivial, trivial, ⟨rfl, trivial⟩, trivial, trivial, trivial,
      ⟨⟨_, rfl⟩, rfl, ?_, fun _ => ⟨?_, le_refl (3 : ℤ)⟩⟩,
      ⟨⟨_, rfl⟩, trivial, Call.within_of_reads (fun _ h => h) ?_ (le_refl (4 : ℤ))⟩, trivial⟩
    · show (0 : ℤ) ≤ 1
      decide
    · show (1 : ℤ) ≤ 2
      decide
    · show (2 : ℤ) ≤ 3
      decide
    · show (2 : ℤ) ≤ 3
      decide
    · show (3 : ℤ) ≤ 4
      decide
  have hshare : Sharing (fun _ : Bool => Except.ok) (fun _ => Config.default)
      Config.default.aofPath Config.default.snapshotPath :=
    fun _ => ⟨fun _ h => (Except.ok.inj h).symm, fun _ h => (Except.ok.inj h).symm⟩
  exact (one_store le_rfl hshare hrun).1

end Machine

end WasmRedis
