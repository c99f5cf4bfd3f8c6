import WasmRedis.Conversation
import WasmRedis.Survival

/-!
# One session after the other

The program is started with `-cli`, used, left, and started again over the same files,
with other settings perhaps. As long as `run` returns nil, nothing is lost between two
sessions, whatever the storage calls of the background tasks had returned meanwhile: all
that the sessions print is what one map prints (`sessions`).

A process that is stopped otherwise is the subject of `WasmRedis.Survival`, whose ledger
says what there is after it.
-/

namespace WasmRedis

open GoString

variable {R : Type} [LinearOrder R] [Zero R] [Strconv R]

/-! ## The program -/

/-- The program. -/
structure Program (R : Type) where
  /-- The processes of the session, and the storage when there has been none. -/
  phase : Storage ⊕ Terminal R
  /-- An instant that the clock had reached before the session. -/
  clock : Time

namespace Program

/-- What happens. -/
inductive Event where
  /-- The program is started with `-cli`, some settings and an input, and has opened the
  engine, or not, before the instant given. -/
  | start (cfg : Config) (r : RestoreOrders) (now : GoString → Time) (fails : ReadFailures)
      (before : Time) (input : Input)
  /-- A move of the processes. -/
  | move (move : Terminal.Move)

/-- What is typed, session after session. -/
inductive Typed where
  /-- A session begins. -/
  | session (defaultTTL : ℤ)
  /-- A line is executed, at an instant. -/
  | line (text : GoString) (now : Time)

omit [LinearOrder R] [Zero R] [Strconv R] in
/-- What the files hold, between two sessions. -/
def store (p : Program R) : Storage :=
  match p.phase with
  | .inl store => store
  | .inr s => s.engine.store.getD Storage.empty

omit [LinearOrder R] [Zero R] [Strconv R] in
/-- An instant that the clock has reached. -/
def reached (p : Program R) : Time :=
  match p.phase with
  | .inl _ => p.clock
  | .inr s => s.clock

omit [LinearOrder R] [Zero R] [Strconv R] in
/-- No session is under way, and the last one has returned nil. -/
def Between (p : Program R) : Prop :=
  match p.phase with
  | .inl _ => True
  | .inr s => s.main = .ended .nil

/-- The program is started between two sessions, and the clock never goes back. -/
def admits (p : Program R) : Event → Prop
  | .start _ _ now _ before _ =>
    p.Between ∧ p.reached ≤ before ∧ ∀ key, p.reached ≤ now key ∧ now key ≤ before
  | .move move => ∃ s, p.phase = .inr s ∧ s.admits move

section Step

variable [TextLib] (abs : GoString → Except Err GoString)
  (formatTime : Time → Except Err GoString)

/-- One event, and what is typed and printed. -/
def step (p : Program R) : Event → List (Typed × Option LoopEnd) × Program R
  | .start cfg r now fails before input =>
    match Engine.newWithStorage (R := R) abs (some p.store) cfg r now fails with
    | .error _ => ([], { phase := .inl p.store, clock := before })
    | .ok e =>
      ([(.session cfg.defaultTTL, none)],
        { phase := .inr (Terminal.launched e before input), clock := before })
  | .move move =>
    match p.phase with
    | .inl _ => ([], p)
    | .inr s =>
      ((s.step abs formatTime move).1.map
          (fun turn => (.line turn.1.1 turn.1.2, some turn.2)),
        { p with phase := .inr (s.step abs formatTime move).2 })

/-- The program as a system. -/
def system : System (Program R) Event (List (Typed × Option LoopEnd)) where
  admits := admits
  step := step abs formatTime

end Step

omit [LinearOrder R] [Zero R] [Strconv R] in
/-- Before the first session. -/
def init (t : Time) : Program R := { phase := .inl Storage.empty, clock := t }

end Program

/-- The sessions, over one map. -/
def Reference.desk (R : Type) [LinearOrder R] [Zero R] [Strconv R] [TextLib]
    (formatTime : Time → Except Err GoString) :
    System (Reference × ℤ) Program.Typed (Option LoopEnd) where
  admits _ _ := True
  step s
    | .session defaultTTL => (none, (s.1, defaultTTL))
    | .line text now =>
      Prod.map some (·, s.2) ((Reference.shell R formatTime s.2).step s.1 (text, now))

/-! ## What is kept -/

/-- **An engine that is used over files which keep track of it**, and the map that its
clients see. -/
def Uses (defaultTTL : ℤ) (t : Time) (e : Engine R) (ref : Reference) : Prop :=
  ∃ (w : World R) (l : Ledger), w.Kept l ∧ w.phase = .up e ∧ e.closed = false
    ∧ l.current = ref ∧ l.defaultTTL = defaultTTL ∧ w.clock ≤ t

/-- **Files that have all that was written**, and the map that a start brings back. -/
def Leaves (R : Type) [LinearOrder R] [Zero R] [Strconv R] (t : Time) (store : Storage)
    (ref : Reference) : Prop :=
  ∃ (w : World R) (l : Ledger), w.Kept l ∧ w.phase = .down store ∧ l.kept = []
    ∧ l.current = ref ∧ w.clock ≤ t

theorem leaves_empty {t : Time} (ht : 0 ≤ t) : Leaves R t Storage.empty ∅ :=
  ⟨World.init t, Ledger.new, World.kept_init ht, rfl, rfl, rfl, le_rfl⟩

theorem Leaves.mono {t t' : Time} {store : Storage} {ref : Reference} (h : Leaves R t store ref)
    (ht : t ≤ t') : Leaves R t' store ref := by
  obtain ⟨w, l, hkept, hdown, hnone, href, hclock⟩ := h
  exact ⟨w, l, hkept, hdown, hnone, href, hclock.trans ht⟩

namespace Uses

variable {defaultTTL : ℤ} {t t' : Time} {e : Engine R} {ref : Reference}

theorem mono (h : Uses defaultTTL t e ref) (ht : t ≤ t') : Uses defaultTTL t' e ref := by
  obtain ⟨w, l, hkept, hup, hopen, href, httl, hclock⟩ := h
  exact ⟨w, l, hkept, hup, hopen, href, httl, hclock.trans ht⟩

theorem follows (h : Uses defaultTTL t e ref) : Engine.Follows defaultTTL t e ref := by
  obtain ⟨w, l, hkept, hup, hopen, rfl, rfl, hclock⟩ := h
  exact (hkept.follows e hup hopen).mono hclock

/-- Whether the background tasks run is no matter. -/
theorem running (h : Uses defaultTTL t e ref) (running : Bool) :
    Uses defaultTTL t { e with running := running } ref := by
  obtain ⟨w, l, hkept, hup, hopen, href, httl, hclock⟩ := h
  obtain ⟨ht, hphase⟩ := hkept.safe
  rw [hup] at hphase
  obtain ⟨start, f, n, hdurable, htracks⟩ := hphase
  have htracks' : Tracks R w.clock w.base start w.recorded f n { e with running := running } :=
    { htracks with sound := ⟨htracks.sound.good, htracks.sound.mirrors⟩ }
  refine ⟨{ w with phase := .up { e with running := running } }, l,
    ⟨⟨ht, start, f, n, hdurable, htracks'⟩, hkept.covers, fun e' hup' _ => ?_⟩,
    rfl, hopen, href, httl, hclock⟩
  rw [← Phase.up.inj hup']
  exact Terminal.follows_running (hkept.follows e hup hopen) running

variable [TextLib]

/-- What the ledger says of a call. -/
theorem allows_call {l l' : Ledger} {c : Call} {answer : Option Answer}
    (h : Ledger.Allows R l (.call c t) answer l') :
    l'.defaultTTL = l.defaultTTL
      ∧ (¬ c.UsesStorage → l'.current = (l.current.turn R l.defaultTTL (.call c)).2)
      ∧ (c.UsesStorage → l'.current = l.current)
      ∧ (answer = some (.ended .nil) → c.UsesStorage → l'.kept = []) := by
  cases h with
  | call hc => exact ⟨rfl, fun _ => rfl, fun h => absurd h hc, fun _ h => absurd h hc⟩
  | failed hc hne =>
    exact ⟨rfl, fun h => absurd hc h, fun _ => rfl,
      fun hnil => absurd (Answer.ended.inj (Option.some.inj hnil)) hne⟩
  | acknowledged hc => exact ⟨rfl, fun h => absurd hc h, fun _ => rfl, fun _ _ => rfl⟩

/-- **A call** of an engine that is open, in which the process is not stopped. -/
theorem call (h : Uses defaultTTL t e ref) {c : Call} (hwithin : c.Within t t')
    (hrestore : ∀ r now fails, c ≠ .restore r now fails)
    (hstopped : (e.call c).1 ≠ .ended .stopped) :
    ∃ (w : World R) (l : Ledger), w.Kept l ∧ w.phase = .up (e.call c).2 ∧ w.clock = t'
      ∧ l.defaultTTL = defaultTTL
      ∧ (¬ c.UsesStorage → l.current = (ref.turn R defaultTTL (.call c)).2)
      ∧ (c.UsesStorage → l.current = ref)
      ∧ ((e.call c).1 = .ended .nil → c.UsesStorage → l.kept = []) := by
  obtain ⟨w, l, hkept, hup, hopen, rfl, rfl, hclock⟩ := h
  have hwithin' : c.Within w.clock t' :=
    ⟨hclock.trans hwithin.1, fun now hnow =>
      ⟨hclock.trans (hwithin.2 now hnow).1, (hwithin.2 now hnow).2⟩⟩
  have horderly : w.Orderly (.call c t') := by
    have hall : ∀ e', w.phase = .up e' → e'.closed = false := by
      intro e' hup'
      rw [hup] at hup'
      rw [← Phase.up.inj hup']
      exact hopen
    cases c with
    | restore r now fails => exact absurd rfl (hrestore r now fails)
    | _ => exact hall
  have hadm : World.lives.admits w (.call c t') := ⟨⟨⟨e, hup⟩, hwithin'⟩, horderly⟩
  obtain ⟨l', hallows, hkept'⟩ := World.kept_call hadm hkept
  obtain ⟨httl, hturn, hsame, hnone⟩ := allows_call hallows
  have hstep : (w.step (.call c t')).2 = _ := World.step_call hup
  refine ⟨_, l', hkept', ?_, ?_, httl, hturn, hsame, fun hnil => hnone ?_⟩
  · rw [hstep]
    exact if_neg hstopped
  · rw [hstep]
  · unfold World.reply
    rw [hup]
    dsimp only
    rw [hnil]

/-- **A command**. -/
theorem execute (h : Uses defaultTTL t e ref) (r : RangeOrder GoString) (cmd : Command)
    {now : Time} (hnow : t ≤ now) :
    Uses defaultTTL now (e.execute r cmd now).2 (ref.execute R defaultTTL cmd now).2 := by
  have hwithin : (Call.execute r cmd now).Within t now :=
    Call.within_of_reads (fun _ h => h) hnow le_rfl
  have hopen := (h.follows.execute r cmd hnow).2.closed
  obtain ⟨w, l, hkept, hup, hclock, httl, hturn, _, _⟩ :=
    h.call hwithin (fun _ _ _ => Call.noConfusion) Answer.noConfusion
  exact ⟨w, l, hkept, hup, hopen, hturn id, httl, hclock.le⟩

/-- **A line**. -/
theorem executeString (h : Uses defaultTTL t e ref) (r : RangeOrder GoString)
    (line : GoString) {now : Time} (hnow : t ≤ now) :
    Uses defaultTTL now (e.executeString r line now).2
      (ref.executeString R defaultTTL line now).2 := by
  unfold Engine.executeString Reference.executeString
  cases parse R line with
  | error err => exact h.mono hnow
  | ok cmd => exact h.execute r cmd hnow

/-- **A task**. -/
theorem task (h : Uses defaultTTL t e ref) {c : Call} (hc : Terminal.Task c)
    (hwithin : c.Within t t') (hstopped : (e.call c).1 ≠ .ended .stopped) :
    Uses defaultTTL t' (e.call c).2 ref := by
  have hopen := (Terminal.follows_task h.follows hc hwithin).closed
  have hrestore : ∀ r now fails, c ≠ .restore r now fails := by
    rintro r now fails rfl
    exact hc
  obtain ⟨w, l, hkept, hup, hclock, httl, hturn, hsame, _⟩ := h.call hwithin hrestore hstopped
  refine ⟨w, l, hkept, hup, hopen, ?_, httl, hclock.le⟩
  cases c with
  | sweepExpired r now => exact hturn id
  | flush reply => exact hsame trivial
  | snapshot r now replies => exact hsame trivial
  | _ => exact hc.elim

/-- **A `Close` that returns nil** leaves all that was written in the files. -/
theorem close (h : Uses defaultTTL t e ref) {reply : Reply ℕ}
    (hnil : (e.close reply).1 = .nil) :
    Leaves R t ((e.close reply).2.store.getD Storage.empty) ref := by
  have hended : (e.call (.close reply)).1 = .ended .nil := congrArg Answer.ended hnil
  have hwithin : (Call.close reply).Within t t := ⟨le_rfl, fun _ hnow => hnow.elim⟩
  obtain ⟨w, l, hkept, hup, hclock, _, _, hsame, hnone⟩ :=
    h.call hwithin (fun _ _ _ => Call.noConfusion) (by rw [hended]; decide)
  obtain ⟨l', hallows, hkept'⟩ := World.kept_step
    (show World.lives.admits w .stop from ⟨trivial, trivial⟩) hkept
  have hstop : (w.step .stop).2 = { w with
      phase := .down ((e.close reply).2.store.getD Storage.empty) } := by
    unfold World.step
    rw [hup]
    rfl
  cases hallows with
  | stop =>
    rw [hstop] at hkept'
    exact ⟨_, l, hkept', rfl, hnone hended trivial, hsame trivial, hclock.le⟩

end Uses

/-- **A start** brings back what was left. -/
theorem Leaves.start [TextLib] {abs : GoString → Except Err GoString} {t before : Time}
    {store : Storage} {ref : Reference} (h : Leaves R t store ref) {cfg : Config}
    {r : RestoreOrders} {now : GoString → Time} {fails : ReadFailures} {e : Engine R}
    (hbefore : t ≤ before) (hnow : ∀ key, t ≤ now key ∧ now key ≤ before)
    (hnew : Engine.newWithStorage abs (some store) cfg r now fails = .ok e) :
    Uses cfg.defaultTTL before e ref := by
  obtain ⟨w, l, hkept, hdown, hnone, rfl, hclock⟩ := h
  have hadm : World.lives.admits w (.start abs cfg r now fails before) :=
    ⟨⟨⟨store, hdown⟩, hclock.trans hbefore, fun key =>
      ⟨hclock.trans (hnow key).1, (hnow key).2⟩⟩, trivial⟩
  obtain ⟨l', hallows, hkept'⟩ := World.kept_start hadm hkept
  have hreply : w.reply (.start abs cfg r now fails before) = some (.error none) := by
    unfold World.reply
    rw [hdown]
    dsimp only
    rw [hnew]
  have hstep : (w.step (.start abs cfg r now fails before)).2
      = { phase := .up e, clock := before, base := e.state, recorded := [], durable := 0 } := by
    unfold World.step
    rw [hdown]
    dsimp only
    rw [hnew]
  rw [hreply] at hallows
  rw [hstep] at hkept'
  have hopen : e.closed = false := by
    obtain ⟨_, state, sequence, index, _, _, rfl⟩ := Engine.newWithStorage_restored hnew
    rfl
  cases hallows with
  | start hmem =>
    refine ⟨_, _, hkept', rfl, hopen, ?_, rfl, le_rfl⟩
    rw [Ledger.maps, hnone] at hmem
    exact List.mem_singleton.mp hmem

/-! ## Sessions -/

/-- `run` has waited for the background tasks. -/
def Terminal.Main.Waited : Terminal.Main → Prop
  | .closing _ => True
  | .ended _ => True
  | _ => False

/-- Joined errors are nil if each is. -/
theorem Return.join_eq_nil {first last : Return} (h : Return.join [first, last] = .nil)
    (hlast : last ≠ .stopped) : last = .nil := by
  cases last with
  | nil => rfl
  | stopped => exact absurd rfl hlast
  | err err =>
    cases first with
    | nil => cases h
    | err _ => cases h
    | stopped => cases h

/-- **A session**, and the map that it shows. -/
structure Terminal.Shows (defaultTTL : ℤ) (s : Terminal R) (ref : Reference) : Prop where
  /-- While `run` has not returned, its engine has the map. -/
  uses : (∀ result, s.main ≠ .ended result) → Uses defaultTTL s.clock s.engine ref
  /-- Once it has returned nil, the files have. -/
  left : s.main = .ended .nil → Leaves R s.clock (s.engine.store.getD Storage.empty) ref
  /-- It closes the engine after the background tasks. -/
  waited : s.main.Waited → ∃ result, s.background = .returned result

namespace Terminal

variable [TextLib] {abs : GoString → Except Err GoString}
  {formatTime : Time → Except Err GoString} {s s' : Terminal R} {move : Move}
  {turns : List ((GoString × Time) × LoopEnd)} {defaultTTL : ℤ} {ref : Reference}

omit [TextLib] in
/-- The background tasks run only before `run` closes the engine. -/
theorem Shows.early (h : Shows defaultTTL s ref)
    (hnot : ∀ result, s.background ≠ .returned result) :
    Uses defaultTTL s.clock s.engine ref ∧ ¬ s.main.Waited := by
  have hwaited : ¬ s.main.Waited := fun hwaited => by
    obtain ⟨result, hresult⟩ := h.waited hwaited
    exact hnot result hresult
  exact ⟨h.uses (fun result hended => hwaited (hended ▸ trivial)), hwaited⟩

omit [TextLib] in
/-- A move of the background tasks. -/
theorem Shows.background (hearly : ¬ s.main.Waited) (hmain : s'.main = s.main)
    (huses : Uses defaultTTL s'.clock s'.engine ref) : Shows defaultTTL s' ref where
  uses _ := huses
  left hended := absurd (show s.main.Waited by rw [← hmain, hended]; trivial) hearly
  waited hwaited := absurd (hmain ▸ hwaited) hearly

omit [TextLib] in
/-- A move of `main` in `runCLI`, or on the way from it. -/
theorem Shows.goes (h : Shows defaultTTL s ref) (hbefore : ∀ result, s.main ≠ .ended result)
    (hengine : s'.engine = s.engine) (hclock : s'.clock = s.clock)
    (hafter : ¬ s'.main.Waited) : Shows defaultTTL s' ref where
  uses _ := by
    rw [hengine, hclock]
    exact h.uses hbefore
  left hended := absurd (hended ▸ trivial) hafter
  waited hwaited := absurd hwaited hafter

/-- **Every move** prints what the map does, and keeps it. -/
theorem Shows.makes (h : Shows defaultTTL s ref)
    (hmakes : Makes abs formatTime s move turns s') :
    ∃ ref', (Specification.ofSystem (Reference.shell R formatTime defaultTTL)).Runs ref turns ref'
      ∧ Shows defaultTTL s' ref' := by
  have hne : ∀ main, s.main = main → ¬ main.Waited → ∀ result, s.main ≠ .ended result := by
    rintro main rfl hwaited result hended
    exact hwaited (hended ▸ trivial)
  cases hmakes with
  | @execute r now line turn e hmain hnow hturn =>
    have hbefore := h.uses (hne _ hmain id)
    obtain ⟨hsame, huses⟩ := loopTurn_shell (Uses defaultTTL now) (hbefore.mono hnow) formatTime
      line (fun text => ⟨(hbefore.follows.executeString r text hnow).1,
        hbefore.executeString r text hnow⟩)
    rw [hturn] at hsame huses
    refine ⟨_, .cons (Prod.ext hsame.symm rfl) .nil, fun _ => huses, fun hended => ?_,
      fun hwaited => ?_⟩
    · cases turn with
      | again output => cases hended
      | returns result => cases hended
    · cases turn with
      | again output => exact hwaited.elim
      | returns result => exact hwaited.elim
  | receive hmain _ => exact ⟨ref, .nil, h.goes (hne _ hmain id) rfl rfl id⟩
  | eof hmain _ => exact ⟨ref, .nil, h.goes (hne _ hmain id) rfl rfl id⟩
  | await hmain _ => exact ⟨ref, .nil, h.goes (hne _ hmain id) rfl rfl id⟩
  | done hmain _ => exact ⟨ref, .nil, h.goes (hne _ hmain id) rfl rfl id⟩
  | leave hmain => exact ⟨ref, .nil, h.goes (hne _ hmain id) rfl rfl id⟩
  | join hmain hbackground =>
    exact ⟨ref, .nil, fun _ => h.uses (hne _ hmain id), fun hended => Main.noConfusion hended,
      fun _ => ⟨_, hbackground⟩⟩
  | @close reply result hmain hstopped =>
    have huses := h.uses (fun result hended => by rw [hmain] at hended; cases hended)
    refine ⟨ref, .nil, fun hnot => absurd rfl (hnot _), fun hended => ?_,
      fun _ => h.waited (by rw [hmain]; trivial)⟩
    exact huses.close (Return.join_eq_nil (Main.ended.inj hended) hstopped)
  | begin hbackground hstart =>
    obtain ⟨huses, hearly⟩ := h.early (fun _ hr => by rw [hbackground] at hr; cases hr)
    have hrun : ∃ running,
        (s.engine.startBackground abs).2 = { s.engine with running := running } :=
      startBackground_snd s.engine
    obtain ⟨running, hrunning⟩ := hrun
    rw [hstart] at hrunning
    dsimp only at hrunning
    refine ⟨ref, .nil, Shows.background hearly rfl ?_⟩
    dsimp only
    rw [hrunning]
    exact huses.running running
  | quit hbackground _ =>
    obtain ⟨huses, hearly⟩ := h.early (fun _ hr => by rw [hbackground] at hr; cases hr)
    exact ⟨ref, .nil, Shows.background hearly rfl (huses.running false)⟩
  | @tick c before hbackground htask hwithin hstopped =>
    obtain ⟨huses, hearly⟩ := h.early (fun _ hr => by rw [hbackground] at hr; cases hr)
    obtain ⟨running, hrunning⟩ := background_engine (outcome (s.engine.call c).1)
      (s.engine.call c).2
    refine ⟨ref, .nil, Shows.background hearly rfl ?_⟩
    dsimp only
    rw [hrunning]
    exact (huses.task htask hwithin hstopped).running running
  | _ => exact ⟨ref, .nil, h.uses, h.left, h.waited⟩

end Terminal

namespace Program

variable [TextLib] {abs : GoString → Except Err GoString}
  {formatTime : Time → Except Err GoString} {p : Program R}

/-- **The program, and the map** that it shows or has left. -/
def Shows (p : Program R) (s : Reference × ℤ) : Prop :=
  match p.phase with
  | .inl store => Leaves R p.clock store s.1
  | .inr terminal => terminal.Shows s.2 s.1

omit [TextLib] in
/-- Between two sessions the files have the map. -/
theorem Shows.leaves {s : Reference × ℤ} (h : p.Shows s) (hbetween : p.Between) :
    Leaves R p.reached p.store s.1 := by
  obtain ⟨phase, clock⟩ := p
  cases phase with
  | inl store => exact h
  | inr terminal => exact h.left hbetween

/-- The turns of the loop of a session are turns over the map of the sessions. -/
theorem runs_desk {ref ref' : Reference} {turns : List ((GoString × Time) × LoopEnd)}
    {defaultTTL : ℤ}
    (h : (Specification.ofSystem (Reference.shell R formatTime defaultTTL)).Runs ref turns ref') :
    (Specification.ofSystem (Reference.desk R formatTime)).Runs (ref, defaultTTL)
      (turns.map (fun turn => (.line turn.1.1 turn.1.2, some turn.2))) (ref', defaultTTL) := by
  induction h with
  | nil => exact .nil
  | @cons ref ref₁ ref' entered turn rest hallows _ ih =>
    refine .cons ?_ ih
    have hstep : (Reference.shell R formatTime defaultTTL).step ref entered = (turn, ref₁) :=
      hallows
    show Prod.map some (·, defaultTTL)
      ((Reference.shell R formatTime defaultTTL).step ref (entered.1, entered.2)) = _
    rw [hstep]
    rfl

/-- **Every event** prints what the map does. -/
theorem Shows.step {s : Reference × ℤ} (h : p.Shows s) {event : Event}
    (hadm : p.admits event) :
    ∃ s', (Specification.ofSystem (Reference.desk R formatTime)).Runs s
        (Program.step abs formatTime p event).1 s'
      ∧ (Program.step abs formatTime p event).2.Shows s' := by
  cases event with
  | start cfg r now fails before input =>
    obtain ⟨hbetween, hbefore, hnow⟩ := hadm
    have hleaves := h.leaves hbetween
    unfold Program.step
    dsimp only
    cases hnew : Engine.newWithStorage (R := R) abs (some p.store) cfg r now fails with
    | error err => exact ⟨s, .nil, hleaves.mono hbefore⟩
    | ok e =>
      refine ⟨(s.1, cfg.defaultTTL), .cons rfl .nil,
        fun _ => hleaves.start hbefore hnow hnew, fun hended => ?_, False.elim⟩
      exact Terminal.Main.noConfusion hended
  | move move =>
    obtain ⟨terminal, hphase, hmove⟩ := hadm
    unfold Shows at h
    unfold Program.step
    rw [hphase] at h ⊢
    have hmakes : Terminal.Makes abs formatTime terminal move _ _ := Terminal.makes hmove
    obtain ⟨ref', hruns, hshows⟩ := h.makes hmakes
    exact ⟨(ref', s.2), runs_desk hruns, hshows⟩

/-- **One session after the other.** Over any number of sessions from empty files, under
any settings, whatever is typed, with any failures of the storage calls, and with the moves
of each session's processes in any order: if `run` returned nil in every session but the
last, all that the sessions printed is what one map prints of all that was typed in them. -/
theorem sessions {t : Time} (ht : 0 ≤ t) {events : List Event}
    (hrun : (system abs formatTime).Admits (init t : Program R) events) :
    ((system abs formatTime).answers (init t : Program R) events).flatten.map (·.2)
      = (Reference.desk R formatTime).answers (∅, 0)
          (((system abs formatTime).answers (init t : Program R) events).flatten.map (·.1)) := by
  obtain ⟨s, hruns, _⟩ := Specification.refines_flatten (Shows (R := R)) hrun
    (show (init t : Program R).Shows (∅, 0) from leaves_empty ht)
    (fun p s event hadm h => h.step hadm)
  exact hruns.answers.1

/-- A session is a run of its processes. -/
theorem admits_moves {s : Terminal R} {clock : Time} {moves : List Terminal.Move}
    {rest : List Event} (h : (Terminal.system abs formatTime).Admits s moves)
    (hrest : (system abs formatTime).Admits
      { phase := .inr ((Terminal.system abs formatTime).after s moves), clock := clock } rest) :
    (system abs formatTime).Admits { phase := .inr s, clock := clock }
      (moves.map .move ++ rest) := by
  induction moves generalizing s with
  | nil => exact hrest
  | cons move moves ih => exact ⟨⟨s, rfl, h.1⟩, ih h.2 hrest⟩

/-- A key is set in one session, which ends with the input. -/
def keySet : List Terminal.Move :=
  [.begin, .scan, .receive, .scan, .execute RangeOrder.sorted 1, .closeLines, .eof, .await,
    .leave, .quit, .join, .close .ok]

/-- The next session begins. -/
def nextSession : Event :=
  .start Config.default RestoreOrders.sorted (fun _ => 2) {} 2
    { data := str "GET k\n", err := none }

/-- It finds the key. -/
def keyFound : List Terminal.Move := [.scan, .receive, .execute RangeOrder.sorted 3]

/-- The two sessions. -/
def setThenFound : List Event :=
  .start Config.default RestoreOrders.sorted (fun _ => 0) {} 0
      { data := str "SET k v\n", err := none }
    :: (keySet.map .move ++ nextSession :: (keyFound.map .move ++ []))

omit [LinearOrder R] [Zero R] [Strconv R] in
/-- The lines of the second session are read whatever the engine has. -/
theorem admits_nextSession {p : Program ℕ} (hbetween : p.Between) (hreached : p.reached ≤ 2)
    (hopened : (Engine.newWithStorage (R := ℕ) Except.ok (some p.store) Config.default
      RestoreOrders.sorted (fun _ => 2) {}).isOk = true) :
    (system Except.ok formatTime).Admits p (nextSession :: (keyFound.map .move ++ [])) := by
  refine ⟨⟨hbetween, hreached, fun _ => ⟨hreached, le_rfl⟩⟩, ?_⟩
  show (system Except.ok formatTime).Admits (Program.step Except.ok formatTime p nextSession).2 _
  unfold nextSession Program.step
  dsimp only
  cases hnew : Engine.newWithStorage (R := ℕ) Except.ok (some p.store) Config.default
      RestoreOrders.sorted (fun _ => 2) {} with
  | error err =>
    rw [hnew] at hopened
    cases hopened
  | ok e =>
    have hmoves : (Terminal.system Except.ok formatTime).Admits
        (Terminal.launched e 2 { data := str "GET k\n", err := none }) keyFound :=
      ⟨⟨_, rfl⟩, ⟨rfl, _, _, rfl⟩, ⟨⟨_, rfl⟩, show (2 : ℤ) ≤ 3 by decide⟩, trivial⟩
    exact admits_moves hmoves trivial

omit [LinearOrder R] [Zero R] [Strconv R] [TextLib] in
theorem sessions_setThenFound :
    let _ := TextLib.ascii
    ((system Except.ok Terminal.noDeadline).answers (init 0 : Program ℕ)
        setThenFound).flatten.map (·.2)
      = [none, some (.again (str "OK\n")), none, some (.again (str "v\n"))] := by
  let _ := TextLib.ascii
  have hrun : (system Except.ok Terminal.noDeadline).Admits (init 0 : Program ℕ)
      setThenFound := by
    refine ⟨⟨trivial, le_rfl, fun _ => ⟨le_rfl, le_rfl⟩⟩, admits_moves ?_
      (admits_nextSession (show _ = _ from ?_) ?_ ?_)⟩
    · refine ⟨rfl, ⟨_, rfl⟩, ⟨rfl, _, _, rfl⟩, ⟨_, rfl⟩, ⟨⟨_, rfl⟩, by decide⟩,
        show _ = _ from ?_, ⟨?_, [], ?_⟩, ⟨?_, ?_⟩, ⟨.nil, ?_⟩, ⟨?_, ?_⟩,
        ⟨⟨.nil, ?_⟩, .nil, ?_⟩, ⟨⟨.nil, ?_⟩, ?_⟩, trivial⟩
      all_goals decide +kernel
    all_goals decide +kernel
  refine (sessions le_rfl hrun).trans ?_
  decide +kernel

end Program

end WasmRedis
