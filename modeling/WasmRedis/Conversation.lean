import WasmRedis.Foundation.Refinement
import WasmRedis.Terminal

/-!
# What the terminal prints

Whatever the order in which the reader, the loop of `runCLI` and the background tasks
make their moves, and whenever a signal comes, the lines that are executed are the first
ones of the input, each once and in order, and nothing is executed after the line that
ends the loop. What is printed of them is what the same loop prints over a map
(`conversation`).
-/

namespace WasmRedis

open GoString

variable {R : Type} [LinearOrder R] [Zero R] [Strconv R] [TextLib]

/-- **The terminal, over a map**: its loop, where lines are executed by the reference. -/
def Reference.shell (R : Type) [LinearOrder R] [Zero R] [Strconv R]
    (formatTime : Time → Except Err GoString) (defaultTTL : ℤ) :
    System Reference (GoString × Time) LoopEnd where
  admits _ _ := True
  step ref entered :=
    loopTurn R formatTime (ref.executeString R defaultTTL · entered.2) ref entered.1

omit [LinearOrder R] [Zero R] in
/-- **A turn of the loop** only depends on what the line is answered. -/
theorem loopTurn_congr {S T : Type} {executeS : GoString → Result × S}
    {executeT : GoString → Result × T} (Rel : S → T → Prop) {s : S} {t : T} (hrel : Rel s t)
    (formatTime : Time → Except Err GoString) (line : GoString)
    (h : ∀ text, (executeS text).1 = (executeT text).1
      ∧ Rel (executeS text).2 (executeT text).2) :
    (loopTurn R formatTime executeS s line).1 = (loopTurn R formatTime executeT t line).1
      ∧ Rel (loopTurn R formatTime executeS s line).2
          (loopTurn R formatTime executeT t line).2 := by
  unfold loopTurn
  generalize trimSpace line = text
  obtain ⟨hresult, hafter⟩ := h text
  dsimp only
  split_ifs
  · exact ⟨rfl, hrel⟩
  · exact ⟨rfl, hrel⟩
  · rw [hresult]
    cases printed R formatTime text (executeT text).1 with
    | error err => exact ⟨rfl, hafter⟩
    | ok output => exact ⟨rfl, hafter⟩

/-- A turn of the loop ends over an engine as it does over a map that gives the same
results. -/
theorem loopTurn_shell {defaultTTL : ℤ} {e : Engine R} {ref : Reference}
    (Rel : Engine R → Reference → Prop) (hrel : Rel e ref)
    (formatTime : Time → Except Err GoString) {r : RangeOrder GoString} {now : Time}
    (line : GoString) (h : ∀ text,
      (e.executeString r text now).1 = (ref.executeString R defaultTTL text now).1
        ∧ Rel (e.executeString r text now).2 (ref.executeString R defaultTTL text now).2) :
    (loopTurn R formatTime (e.executeString r · now) e line).1
        = ((Reference.shell R formatTime defaultTTL).step ref (line, now)).1
      ∧ Rel (loopTurn R formatTime (e.executeString r · now) e line).2
          ((Reference.shell R formatTime defaultTTL).step ref (line, now)).2 := by
  unfold Reference.shell
  dsimp only
  exact loopTurn_congr Rel hrel formatTime line h

namespace Terminal

variable {abs : GoString → Except Err GoString} {formatTime : Time → Except Err GoString}
  {s s' : Terminal R} {move : Move} {turns : List ((GoString × Time) × LoopEnd)}

/-! ## What a move does -/

/-- Where `main` is after a turn of the loop. -/
def Main.after : LoopEnd → Main
  | .again _ => .selecting
  | .returns result => .returned result

/-- Where `StartBackground` is once it has looked at the engine. -/
def Background.begun : Option Err → Background
  | none => .looping
  | some err => .returned (.err err)

/-- Where it is after a task. -/
def Background.after : Return → Background
  | .nil => .looping
  | result => .returned result

/-- The engine after a task. -/
def Background.engine (result : Return) (e : Engine R) : Engine R :=
  match result with
  | .nil => e
  | _ => e.stopBackground

section Makes

variable (abs formatTime s)

/-- **What a move does**, and when it can be made. -/
inductive Makes : Move → List ((GoString × Time) × LoopEnd) → Terminal R → Prop where
  /-- There are no more lines. -/
  | exhausted : s.reader = .scanning [] →
      Makes .scan [] { s with reader := .sent, readError := some s.scanErr }
  /-- The scanner finds a line. -/
  | found {line : GoString} {rest : List GoString} : s.reader = .scanning (line :: rest) →
      Makes .scan [] { s with reader := .offering line rest }
  /-- The reader returns. -/
  | closeLines : s.reader = .sent → Makes .closeLines [] { s with reader := .returned [] }
  /-- The reader returns with a line. -/
  | abandon {line : GoString} {rest : List GoString} :
      s.reader = .offering line rest → s.cancelled = true →
      Makes .abandon [] { s with reader := .returned (line :: rest) }
  /-- A line is handed over. -/
  | receive {line : GoString} {rest : List GoString} :
      s.main = .selecting → s.reader = .offering line rest →
      Makes .receive [] { s with reader := .scanning rest, main := .running line }
  /-- `lines` is closed. -/
  | eof {rest : List GoString} : s.main = .selecting → s.reader = .returned rest →
      Makes .eof [] { s with main := .awaiting }
  /-- The error of the scanner is received. -/
  | await {result : Return} : s.main = .awaiting → s.readError = some result →
      Makes .await [] { s with readError := none, main := .returned result }
  /-- The context was cancelled. -/
  | done : s.main = .selecting → s.cancelled = true →
      Makes .done [] { s with main := .returned .nil }
  /-- A turn of the loop. -/
  | execute {r : RangeOrder GoString} {now : Time} {line : GoString} {turn : LoopEnd}
      {e : Engine R} : s.main = .running line → s.clock ≤ now →
      loopTurn R formatTime (s.engine.executeString r · now) s.engine line = (turn, e) →
      Makes (.execute r now) [((line, now), turn)]
        { s with engine := e, clock := now, main := Main.after turn }
  /-- `run` cancels the context. -/
  | leave {result : Return} : s.main = .returned result →
      Makes .leave [] { s with main := .joining result, cancelled := true }
  /-- `run` has waited for the tasks. -/
  | join {result background : Return} : s.main = .joining result →
      s.background = .returned background →
      Makes .join [] { s with main := .closing (Return.join [result, background]) }
  /-- `run` closes the engine. -/
  | close {reply : Reply ℕ} {result : Return} : s.main = .closing result →
      (s.engine.close reply).1 ≠ .stopped →
      Makes (.close reply) [] { s with
        engine := (s.engine.close reply).2
        main := .ended (Return.join [result, (s.engine.close reply).1]) }
  /-- `StartBackground` looks at the engine. -/
  | begin {started : Option Err} {e : Engine R} : s.background = .starting →
      s.engine.startBackground abs = (started, e) →
      Makes .begin [] { s with engine := e, background := Background.begun started }
  /-- `StartBackground` returns. -/
  | quit : s.background = .looping → s.cancelled = true →
      Makes .quit [] { s with
        engine := s.engine.stopBackground, background := .returned .nil }
  /-- The context is cancelled after it. -/
  | cancel {result : Return} : s.background = .returned result → s.cancelled = false →
      Makes .cancel [] { s with cancelled := true }
  /-- A task. -/
  | tick {c : Call} {before : Time} : s.background = .looping → Task c →
      c.Within s.clock before → (s.engine.call c).1 ≠ .ended .stopped →
      Makes (.tick c before) [] { s with
        engine := Background.engine (outcome (s.engine.call c).1) (s.engine.call c).2
        clock := before
        background := Background.after (outcome (s.engine.call c).1) }
  /-- A signal. -/
  | signal : Makes .signal [] { s with cancelled := true }

end Makes

/-- **Every move that may be made does this.** -/
theorem makes (hadm : admits s move) :
    Makes abs formatTime s move (step abs formatTime s move).1
      (step abs formatTime s move).2 := by
  cases move with
  | scan =>
    obtain ⟨rest, hreader⟩ := hadm
    unfold step
    cases rest with
    | nil =>
      rw [hreader]
      exact .exhausted hreader
    | cons line rest =>
      rw [hreader]
      exact .found hreader
  | closeLines => exact .closeLines hadm
  | abandon =>
    obtain ⟨⟨line, rest, hreader⟩, hcancelled⟩ := hadm
    unfold step
    rw [hreader]
    exact .abandon hreader hcancelled
  | receive =>
    obtain ⟨hmain, line, rest, hreader⟩ := hadm
    unfold step
    rw [hreader]
    exact .receive hmain hreader
  | eof =>
    obtain ⟨hmain, rest, hreader⟩ := hadm
    exact .eof hmain hreader
  | await =>
    obtain ⟨hmain, hsome⟩ := hadm
    unfold step
    cases herr : s.readError with
    | none => exact absurd herr hsome
    | some result => exact .await hmain herr
  | done => exact .done hadm.1 hadm.2
  | execute r now =>
    obtain ⟨⟨line, hmain⟩, hnow⟩ := hadm
    unfold step
    rw [hmain]
    dsimp only
    cases hturn : loopTurn R formatTime (s.engine.executeString r · now) s.engine line with
    | mk turn e =>
      cases turn with
      | again output => exact .execute hmain hnow hturn
      | returns result => exact .execute hmain hnow hturn
  | leave =>
    obtain ⟨result, hmain⟩ := hadm
    unfold step
    rw [hmain]
    exact .leave hmain
  | join =>
    obtain ⟨⟨result, hmain⟩, background, hbackground⟩ := hadm
    have hmakes : Makes abs formatTime s .join _ _ := .join hmain hbackground
    unfold step
    rw [hbackground] at hmakes
    rw [hmain, hbackground]
    exact hmakes
  | close reply =>
    obtain ⟨⟨result, hmain⟩, hstopped⟩ := hadm
    unfold step
    rw [hmain]
    exact .close hmain hstopped
  | begin =>
    unfold step
    cases hstart : s.engine.startBackground abs with
    | mk started e =>
      cases started with
      | none => exact .begin hadm hstart
      | some err => exact .begin hadm hstart
  | quit => exact .quit hadm.1 hadm.2
  | cancel =>
    obtain ⟨⟨result, hbackground⟩, hcancelled⟩ := hadm
    exact .cancel hbackground hcancelled
  | tick c before =>
    obtain ⟨hlooping, htask, hwithin, hstopped⟩ := hadm
    have hmakes : Makes abs formatTime s (.tick c before) _ _ :=
      .tick hlooping htask hwithin hstopped
    unfold step
    dsimp only
    cases houtcome : outcome (s.engine.call c).1 with
    | nil =>
      have hlooping' : Background.after .nil = s.background := hlooping.symm
      rw [houtcome, hlooping'] at hmakes
      exact hmakes
    | err e =>
      rw [houtcome] at hmakes
      exact hmakes
    | stopped =>
      rw [houtcome] at hmakes
      exact hmakes
  | signal => exact .signal

/-! ## The lines -/

/-- The line that `main` has. -/
def Main.line : Main → List GoString
  | .running line => [line]
  | _ => []

/-- `main` is in `runCLI`. -/
def Main.Inside : Main → Prop
  | .selecting => True
  | .running _ => True
  | .awaiting => True
  | _ => False

/-- The lines that the reader has not handed over. -/
def Reader.rest : Reader → List GoString
  | .scanning rest => rest
  | .offering line rest => line :: rest
  | .sent => []
  | .returned rest => rest

omit [LinearOrder R] [Zero R] [Strconv R] [TextLib] in
/-- The lines that were not executed. -/
def todo (s : Terminal R) : List GoString := s.main.line ++ s.reader.rest

/-- **No move loses a line**, and none takes it before its turn. -/
theorem Makes.todo (h : Makes abs formatTime s move turns s') :
    s.todo = turns.map (·.1.1) ++ s'.todo := by
  unfold Terminal.todo
  cases h with
  | exhausted hreader => rw [hreader]; rfl
  | found hreader => rw [hreader]; rfl
  | closeLines hreader => rw [hreader]; rfl
  | abandon hreader _ => rw [hreader]; rfl
  | receive hmain hreader => rw [hmain, hreader]; rfl
  | eof hmain _ => rw [hmain]; rfl
  | await hmain _ => rw [hmain]; rfl
  | done hmain _ => rw [hmain]; rfl
  | @execute r now line turn e hmain _ _ =>
    rw [hmain]
    cases turn with
    | again output => rfl
    | returns result => rfl
  | leave hmain => rw [hmain]; rfl
  | join hmain _ => rw [hmain]; rfl
  | close hmain _ => rw [hmain]; rfl
  | _ => rfl

/-! ## The channels -/

/-- What is in `readError`, and where `runCLI` is not, while the reader is somewhere: the
error is sent once all lines were handed over, and `runCLI` waits for it once `lines` is
closed – by a reader that has sent it, or by one that has not, and has lines left. -/
def Reader.Fits (readError : Option Return) (scanErr : Return) (main : Main) : Reader → Prop
  | .scanning _ => readError = none ∧ main ≠ .awaiting
  | .offering _ _ => readError = none ∧ main ≠ .awaiting
  | .sent => readError = some scanErr ∧ main ≠ .awaiting
  | .returned [] => main.Inside → readError = some scanErr
  | .returned (_ :: _) => readError = none

omit [TextLib] in
/-- `main` goes on, and does not come to wait for the error. -/
theorem Reader.Fits.goes {readError : Option Return} {scanErr : Return} {main main' : Main}
    {reader : Reader} (h : reader.Fits readError scanErr main) (hne : main' ≠ .awaiting)
    (hinside : main'.Inside → main.Inside) : reader.Fits readError scanErr main' := by
  cases reader with
  | scanning rest => exact ⟨h.1, hne⟩
  | offering line rest => exact ⟨h.1, hne⟩
  | sent => exact ⟨h.1, hne⟩
  | returned rest =>
    cases rest with
    | nil => exact fun hmain => h (hinside hmain)
    | cons line rest => exact h

omit [LinearOrder R] [Zero R] [Strconv R] [TextLib] in
/-- **The invariant of the processes.** -/
structure Sound (s : Terminal R) : Prop where
  /-- The channels. -/
  reader : s.reader.Fits s.readError s.scanErr s.main
  /-- `run` waits for the tasks when the context is cancelled. -/
  joining : ∀ result, s.main = .joining result → s.cancelled = true

omit [LinearOrder R] [Zero R] [Strconv R] [TextLib] in
theorem sound_launched (e : Engine R) (t : Time) (input : Input) :
    (launched e t input).Sound :=
  ⟨⟨rfl, Main.noConfusion⟩, fun _ h => Main.noConfusion h⟩

omit [TextLib] in
theorem Main.after_ne (turn : LoopEnd) :
    Main.after turn ≠ .awaiting ∧ ∀ result, Main.after turn ≠ .joining result := by
  cases turn with
  | again output => exact ⟨Main.noConfusion, fun _ => Main.noConfusion⟩
  | returns result => exact ⟨Main.noConfusion, fun _ => Main.noConfusion⟩

omit [LinearOrder R] [Zero R] [Strconv R] [TextLib] in
/-- What `runCLI` receives from `readError` is the error of the scanner, which has handed
over all its lines. -/
theorem Sound.await (h : s.Sound) (hmain : s.main = .awaiting) {result : Return}
    (hresult : s.readError = some result) : result = s.scanErr ∧ s.reader = .returned [] := by
  have hfits := h.reader
  rw [hmain, hresult] at hfits
  generalize s.reader = reader at hfits ⊢
  cases reader with
  | scanning rest => exact absurd rfl hfits.2
  | offering line rest => exact absurd rfl hfits.2
  | sent => exact absurd rfl hfits.2
  | returned rest =>
    cases rest with
    | nil => exact ⟨Option.some.inj (hfits trivial), rfl⟩
    | cons line rest => exact absurd hfits (Option.some_ne_none result)

theorem Sound.makes (h : s.Sound) (hmakes : Makes abs formatTime s move turns s') :
    s'.Sound := by
  have hfits := h.reader
  cases hmakes with
  | exhausted hreader =>
    rw [hreader] at hfits
    exact ⟨⟨rfl, hfits.2⟩, h.joining⟩
  | found hreader =>
    rw [hreader] at hfits
    exact ⟨hfits, h.joining⟩
  | closeLines hreader =>
    rw [hreader] at hfits
    exact ⟨fun _ => hfits.1, h.joining⟩
  | abandon hreader _ =>
    rw [hreader] at hfits
    exact ⟨hfits.1, h.joining⟩
  | receive _ hreader =>
    rw [hreader] at hfits
    exact ⟨⟨hfits.1, Main.noConfusion⟩, fun _ h => Main.noConfusion h⟩
  | @eof rest hmain hreader =>
    refine ⟨?_, fun _ h => Main.noConfusion h⟩
    rw [hmain, hreader] at hfits
    show s.reader.Fits s.readError s.scanErr .awaiting
    rw [hreader]
    cases rest with
    | nil => exact fun _ => hfits trivial
    | cons line rest => exact hfits
  | await hmain hresult =>
    refine ⟨?_, fun _ h => Main.noConfusion h⟩
    show s.reader.Fits none s.scanErr (.returned _)
    rw [(h.await hmain hresult).2]
    exact fun hinside => hinside.elim
  | done _ _ =>
    exact ⟨hfits.goes Main.noConfusion False.elim, fun _ h => Main.noConfusion h⟩
  | @execute r now line turn e hmain _ _ =>
    rw [hmain] at hfits
    exact ⟨hfits.goes (Main.after_ne turn).1 (fun _ => trivial),
      fun result h => absurd h ((Main.after_ne turn).2 result)⟩
  | leave _ => exact ⟨hfits.goes Main.noConfusion False.elim, fun _ _ => rfl⟩
  | join _ _ =>
    exact ⟨hfits.goes Main.noConfusion False.elim, fun _ h => Main.noConfusion h⟩
  | close _ _ =>
    exact ⟨hfits.goes Main.noConfusion False.elim, fun _ h => Main.noConfusion h⟩
  | begin _ _ => exact ⟨hfits, h.joining⟩
  | quit _ _ => exact ⟨hfits, h.joining⟩
  | cancel _ _ => exact ⟨hfits, fun _ _ => rfl⟩
  | tick _ _ _ _ => exact ⟨hfits, h.joining⟩
  | signal => exact ⟨hfits, fun _ _ => rfl⟩

/-! ## The turns of the loop -/

/-- **Why `runCLI` returns** what it does, after some turns of its loop. -/
inductive Ends (input : Input) (turns : List ((GoString × Time) × LoopEnd)) (cancelled : Bool) :
    Return → Prop where
  /-- The last line ends the loop, or its entries cannot be printed. -/
  | turn {result : Return} : turns.getLast?.map (·.2) = some (.returns result) →
      Ends input turns cancelled result
  /-- All lines of the input were executed. -/
  | exhausted : turns.map (·.1.1) = input.lines → Ends input turns cancelled input.scanErr
  /-- The context was cancelled. -/
  | cancelled : cancelled = true → Ends input turns cancelled .nil

omit [TextLib] in
theorem Ends.mono {input : Input} {turns : List ((GoString × Time) × LoopEnd)}
    {cancelled cancelled' : Bool} {result : Return} (h : Ends input turns cancelled result)
    (hle : cancelled = true → cancelled' = true) : Ends input turns cancelled' result := by
  cases h with
  | turn hlast => exact .turn hlast
  | exhausted hlines => exact .exhausted hlines
  | cancelled hcancelled => exact .cancelled (hle hcancelled)

/-- **What the turns of the loop were**, when the processes are as they are. -/
structure Heard (input : Input) (turns : List ((GoString × Time) × LoopEnd)) (s : Terminal R) :
    Prop where
  /-- The invariant. -/
  sound : s.Sound
  /-- The scanner has the error of the input to return. -/
  scanErr : s.scanErr = input.scanErr
  /-- The lines are those of the input that are not left. -/
  lines : input.lines = turns.map (·.1.1) ++ s.todo
  /-- Each comes after those before. -/
  ordered : turns.Pairwise (fun turn turn' => turn.1.2 ≤ turn'.1.2)
  /-- The clock is past them. -/
  past : ∀ turn ∈ turns, turn.1.2 ≤ s.clock
  /-- All but the last let the loop go on. -/
  again : ∀ turn ∈ turns.dropLast, ∃ output, turn.2 = .again output
  /-- The last too, while `runCLI` has not returned. -/
  inside : s.main.Inside → ∀ turn ∈ turns, ∃ output, turn.2 = .again output
  /-- Else it has returned what it should. -/
  returned : ∀ result, s.main = .returned result → Ends input turns s.cancelled result

omit [LinearOrder R] [Zero R] [Strconv R] [TextLib] in
theorem heard_launched (e : Engine R) (t : Time) (input : Input) :
    Heard input [] (launched e t input) where
  sound := sound_launched e t input
  scanErr := rfl
  lines := rfl
  ordered := List.Pairwise.nil
  past _ h := absurd h List.not_mem_nil
  again _ h := absurd h List.not_mem_nil
  inside _ _ h := absurd h List.not_mem_nil
  returned _ h := Main.noConfusion h

/-- A move that is not a turn of the loop. -/
theorem Heard.quiet {input : Input} {before : List ((GoString × Time) × LoopEnd)}
    (h : Heard input before s) (hmakes : Makes abs formatTime s move [] s')
    (hscan : s'.scanErr = s.scanErr) (hclock : s.clock ≤ s'.clock)
    (hinside : s'.main.Inside → s.main.Inside)
    (hreturned : ∀ result, s'.main = .returned result →
      Ends input before s'.cancelled result) : Heard input before s' where
  sound := h.sound.makes hmakes
  scanErr := hscan.trans h.scanErr
  lines := by rw [h.lines, hmakes.todo]; rfl
  ordered := h.ordered
  past turn hmem := (h.past turn hmem).trans hclock
  again := h.again
  inside hmain := h.inside (hinside hmain)
  returned := hreturned

/-- **Every move keeps what the turns of the loop were**, with its own. -/
theorem Heard.makes {input : Input} {before : List ((GoString × Time) × LoopEnd)}
    (h : Heard input before s) (hmakes : Makes abs formatTime s move turns s') :
    Heard input (before ++ turns) s' := by
  have hmoves := hmakes
  -- `main` stays where it is
  have hsame : turns = [] → s'.scanErr = s.scanErr → s.clock ≤ s'.clock → s'.main = s.main →
      (s.cancelled = true → s'.cancelled = true) → Heard input (before ++ turns) s' := by
    intro hnil hscan hclock hmain hcancelled
    subst hnil
    rw [List.append_nil]
    exact h.quiet hmoves hscan hclock (fun hinside => hmain ▸ hinside)
      (fun result hresult => (h.returned result (hmain ▸ hresult)).mono hcancelled)
  cases hmakes with
  | @await result hmain hresult =>
    rw [List.append_nil]
    refine h.quiet hmoves rfl le_rfl False.elim (fun result' hresult' => ?_)
    obtain ⟨rfl, hreader⟩ := h.sound.await hmain hresult
    obtain rfl := Main.returned.inj hresult'
    have hlines := h.lines
    rw [Terminal.todo, hmain, hreader] at hlines
    rw [h.scanErr]
    exact .exhausted (hlines.trans (List.append_nil _)).symm
  | @eof rest hmain hreader =>
    rw [List.append_nil]
    exact h.quiet hmoves rfl le_rfl (fun _ => by rw [hmain]; trivial)
      (fun _ hresult => Main.noConfusion hresult)
  | @receive line rest hmain hreader =>
    rw [List.append_nil]
    exact h.quiet hmoves rfl le_rfl (fun _ => by rw [hmain]; trivial)
      (fun _ hresult => Main.noConfusion hresult)
  | done hmain hcancelled =>
    rw [List.append_nil]
    refine h.quiet hmoves rfl le_rfl False.elim (fun result hresult => ?_)
    obtain rfl := Main.returned.inj hresult
    exact .cancelled hcancelled
  | @execute r now line turn e hmain hnow hturn =>
    have hagain : ∀ turn ∈ before, ∃ output, turn.2 = .again output :=
      h.inside (by rw [hmain]; trivial)
    refine ⟨h.sound.makes hmoves, h.scanErr, ?_, ?_, ?_, ?_, ?_, ?_⟩
    · rw [List.map_append, List.append_assoc, ← hmoves.todo]
      exact h.lines
    · exact List.pairwise_append.mpr ⟨h.ordered, List.pairwise_singleton _ _,
        fun turn hmem turn' hmem' => by
          rw [List.mem_singleton.mp hmem']
          exact (h.past turn hmem).trans hnow⟩
    · intro turn' hmem
      obtain hmem | hmem := List.mem_append.mp hmem
      · exact (h.past turn' hmem).trans hnow
      · rw [List.mem_singleton.mp hmem]
    · rw [List.dropLast_concat]
      exact hagain
    · intro hinside turn' hmem
      obtain hmem | hmem := List.mem_append.mp hmem
      · exact hagain turn' hmem
      · rw [List.mem_singleton.mp hmem]
        cases turn with
        | again output => exact ⟨output, rfl⟩
        | returns result => exact hinside.elim
    · intro result hresult
      cases turn with
      | again output => exact Main.noConfusion hresult
      | returns result' =>
        obtain rfl := Main.returned.inj hresult
        exact .turn (by rw [List.getLast?_concat]; rfl)
  | leave hmain =>
    rw [List.append_nil]
    exact h.quiet hmoves rfl le_rfl False.elim (fun _ hresult => Main.noConfusion hresult)
  | join hmain _ =>
    rw [List.append_nil]
    exact h.quiet hmoves rfl le_rfl False.elim (fun _ hresult => Main.noConfusion hresult)
  | close hmain _ =>
    rw [List.append_nil]
    exact h.quiet hmoves rfl le_rfl False.elim (fun _ hresult => Main.noConfusion hresult)
  | tick _ _ hwithin _ => exact hsame rfl rfl hwithin.1 rfl id
  | cancel _ _ => exact hsame rfl rfl le_rfl rfl (fun _ => rfl)
  | signal => exact hsame rfl rfl le_rfl rfl (fun _ => rfl)
  | _ => exact hsame rfl rfl le_rfl rfl id

/-! ## The engine -/

section Following

variable {defaultTTL : ℤ} {t : Time} {e : Engine R} {ref : Reference}

omit [TextLib] in
/-- Whether the background tasks run is not seen. -/
theorem follows_running (h : Engine.Follows defaultTTL t e ref) (running : Bool) :
    Engine.Follows defaultTTL t { e with running := running } ref :=
  ⟨h.closed, h.ttl, ⟨h.sound.good, h.sound.mirrors⟩, h.models⟩

omit [LinearOrder R] [Zero R] [Strconv R] [TextLib] in
/-- All that `StartBackground` does to the engine before its loop. -/
theorem startBackground_snd (e : Engine R) :
    ∃ running, (e.startBackground abs).2 = { e with running := running } := by
  unfold Engine.startBackground
  split_ifs
  · exact ⟨e.running, rfl⟩
  · cases e.cfg.validate abs with
    | error err => exact ⟨e.running, rfl⟩
    | ok _ => exact ⟨true, rfl⟩

omit [LinearOrder R] [Zero R] [Strconv R] [TextLib] in
/-- All that it does after a task. -/
theorem background_engine (result : Return) (e : Engine R) :
    ∃ running, Background.engine result e = { e with running := running } := by
  cases result with
  | nil => exact ⟨e.running, rfl⟩
  | err err => exact ⟨false, rfl⟩
  | stopped => exact ⟨false, rfl⟩

/-- A task changes nothing that is seen. -/
theorem follows_task (h : Engine.Follows defaultTTL t e ref) {c : Call} (hc : Task c)
    {before : Time} (hwithin : c.Within t before) :
    Engine.Follows defaultTTL before (e.call c).2 ref := by
  have hopen : Asked.Open (.call c) := by
    cases c with
    | flush _ => trivial
    | snapshot _ _ _ => trivial
    | sweepExpired _ _ => trivial
    | _ => exact hc.elim
  have hadm : Engine.dialogue.admits (e, t) (.call c, before) := ⟨hopen, hwithin⟩
  have hturn := (h.turn hadm).2
  cases c with
  | flush _ => exact hturn
  | snapshot _ _ _ => exact hturn
  | sweepExpired _ _ => exact hturn
  | _ => exact hc.elim

/-- **The engine of the processes follows a map**, until it is closed. -/
def Follows (defaultTTL : ℤ) (s : Terminal R) (ref : Reference) : Prop :=
  (∀ result, s.main ≠ .ended result) → Engine.Follows defaultTTL s.clock s.engine ref

/-- **Every move follows the map**, and its turn of the loop is the map's. -/
theorem Follows.makes (h : Follows defaultTTL s ref)
    (hmakes : Makes abs formatTime s move turns s') :
    ∃ ref', (Specification.ofSystem (Reference.shell R formatTime defaultTTL)).Runs ref turns ref'
      ∧ Follows defaultTTL s' ref' := by
  have hopen : ∀ main, s.main = main → (∀ result, main ≠ .ended result) →
      Engine.Follows defaultTTL s.clock s.engine ref := by
    rintro main rfl hne
    exact h hne
  cases hmakes with
  | @execute r now line turn e hmain hnow hturn =>
    have hbefore := hopen _ hmain (fun _ => Main.noConfusion)
    obtain ⟨hsame, hfollows⟩ := loopTurn_shell (Engine.Follows defaultTTL now)
      (hbefore.mono hnow) formatTime line (fun text => hbefore.executeString r text hnow)
    rw [hturn] at hsame hfollows
    exact ⟨_, .cons (Prod.ext hsame.symm rfl) .nil, fun _ => hfollows⟩
  | receive hmain _ => exact ⟨ref, .nil, fun _ => hopen _ hmain (fun _ => Main.noConfusion)⟩
  | eof hmain _ => exact ⟨ref, .nil, fun _ => hopen _ hmain (fun _ => Main.noConfusion)⟩
  | await hmain _ => exact ⟨ref, .nil, fun _ => hopen _ hmain (fun _ => Main.noConfusion)⟩
  | done hmain _ => exact ⟨ref, .nil, fun _ => hopen _ hmain (fun _ => Main.noConfusion)⟩
  | leave hmain => exact ⟨ref, .nil, fun _ => hopen _ hmain (fun _ => Main.noConfusion)⟩
  | join hmain _ => exact ⟨ref, .nil, fun _ => hopen _ hmain (fun _ => Main.noConfusion)⟩
  | close _ _ => exact ⟨ref, .nil, fun hne => absurd rfl (hne _)⟩
  | begin _ hstart =>
    refine ⟨ref, .nil, fun hne => ?_⟩
    have hrun : ∃ running,
        (s.engine.startBackground abs).2 = { s.engine with running := running } :=
      startBackground_snd s.engine
    obtain ⟨running, hrunning⟩ := hrun
    rw [hstart] at hrunning
    dsimp only at hrunning ⊢
    rw [hrunning]
    exact follows_running (h hne) running
  | quit _ _ => exact ⟨ref, .nil, fun hne => follows_running (h hne) false⟩
  | tick _ htask hwithin _ =>
    refine ⟨ref, .nil, fun hne => ?_⟩
    obtain ⟨running, hrunning⟩ := background_engine (outcome (s.engine.call _).1)
      (s.engine.call _).2
    dsimp only
    rw [hrunning]
    exact follows_running (follows_task (h hne) htask hwithin) running
  | _ => exact ⟨ref, .nil, h⟩

end Following

/-! ## Conversations -/

section Conversations

variable (abs formatTime)

/-- The turns of the loop in a run of the processes. -/
def turnsOf (e : Engine R) (t : Time) (input : Input) (moves : List Move) :
    List ((GoString × Time) × LoopEnd) :=
  ((system abs formatTime).answers (launched e t input) moves).flatten

end Conversations

/-- **What the terminal prints.** Under any configuration, in memory or over an empty
storage whose calls fail in any pattern, whatever is typed, and in whatever order the
reader, the loop, the background tasks and a signal make their moves: the turns of the
loop are those of the loop over a map; they are for the first lines of the input, in
order, each once; none comes after the one in which the loop ends; and `runCLI` returns
what that one says, or the error of the scanner after the last line, or nil after the
context was cancelled. -/
theorem conversation {cfg : Config} {e : Engine R} {t : Time} {input : Input}
    {moves : List Move} (hstart : Engine.StartsEmpty cfg e)
    (hrun : (system abs formatTime).Admits (launched e t input) moves) :
    (turnsOf abs formatTime e t input moves).map (·.2)
        = (Reference.shell R formatTime cfg.defaultTTL).answers ∅
            ((turnsOf abs formatTime e t input moves).map (·.1))
      ∧ (turnsOf abs formatTime e t input moves).map (·.1.1) <+: input.lines
      ∧ (turnsOf abs formatTime e t input moves).Pairwise
          (fun turn turn' => turn.1.2 ≤ turn'.1.2)
      ∧ (∀ turn ∈ (turnsOf abs formatTime e t input moves).dropLast,
          ∃ output, turn.2 = .again output)
      ∧ ∀ result, ((system abs formatTime).after (launched e t input) moves).main
          = .returned result →
        Ends input (turnsOf abs formatTime e t input moves)
          ((system abs formatTime).after (launched e t input) moves).cancelled result := by
  obtain ⟨ref, hruns, _⟩ := Specification.refines_flatten (Follows cfg.defaultTTL) hrun
    (fun _ => hstart.follows t) (fun s ref move hadm h => h.makes (makes hadm))
  have hheard : Heard input (turnsOf abs formatTime e t input moves)
      ((system abs formatTime).after (launched e t input) moves) := by
    refine System.Admits.induction (P := fun moves =>
      Heard input (turnsOf abs formatTime e t input moves)
        ((system abs formatTime).after (launched e t input) moves)) hrun
      (heard_launched e t input) (fun moves move _ hadm h => ?_)
    unfold turnsOf
    rw [System.answers_append, List.flatten_append, System.after_concat]
    show Heard input (_ ++ ((step abs formatTime _ move).1 ++ [])) _
    rw [List.append_nil]
    exact h.makes (makes hadm)
  exact ⟨hruns.answers.1, ⟨_, hheard.lines.symm⟩, hheard.ordered, hheard.again, hheard.returned⟩

/-- A number is set and found, and the last line is not read. -/
def numberFound : Input :=
  { data := str "SET k 12\n GET WHERE value >= 9\r\nquit\nPING", err := none }

/-- One line after the other. -/
def oneByOne : List Move :=
  [.scan, .receive, .begin, .execute RangeOrder.sorted 1, .scan, .receive,
    .execute RangeOrder.sorted 2, .scan, .receive, .execute RangeOrder.sorted 3]

/-- The text of a deadline, where there is none. -/
def noDeadline (t : Time) : Except Err GoString :=
  if t = Time.zero then .ok (str "0001-01-01T00:00:00Z") else .error .invalid

omit [TextLib] in
theorem conversation_numberFound :
    let _ := TextLib.ascii
    stdout true ((turnsOf Except.ok noDeadline (Engine.new : Engine ℕ) 0 numberFound
        oneByOne).map (·.2))
      = greeting true ++ str "> OK\n> [\x7b\"key\":\"k\",\"value\":\"12\",\"isNumber\":true,"
        ++ str "\"expiresAt\":\"0001-01-01T00:00:00Z\"\x7d]\n> " := by
  let _ := TextLib.ascii
  have hstart : Engine.StartsEmpty Config.default (Engine.new : Engine ℕ) :=
    Engine.StartsEmpty.memory
      (show Engine.newMemory Except.ok Config.default = .ok Engine.new from rfl)
  have hrun : (system Except.ok noDeadline).Admits
      (launched (Engine.new : Engine ℕ) 0 numberFound) oneByOne := by
    refine ⟨⟨_, rfl⟩, ⟨rfl, _, _, rfl⟩, rfl, ⟨⟨_, rfl⟩, by decide⟩,
      ⟨[str " GET WHERE value >= 9", str "quit", str "PING"], ?_⟩,
      ⟨?_, str " GET WHERE value >= 9", [str "quit", str "PING"], ?_⟩,
      ⟨⟨str " GET WHERE value >= 9", ?_⟩, ?_⟩, ⟨[str "quit", str "PING"], ?_⟩,
      ⟨?_, str "quit", [str "PING"], ?_⟩, ⟨⟨str "quit", ?_⟩, ?_⟩, trivial⟩
    all_goals decide +kernel
  refine (congrArg (stdout true) (conversation hstart hrun).1).trans ?_
  decide +kernel

end Terminal

end WasmRedis
