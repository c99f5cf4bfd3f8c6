import WasmRedis.FileStorage
import WasmRedis.Foundation.Json
import WasmRedis.Interpreter

/-!
# The terminal

`runCLI` prints a prompt, waits for a line, executes it and prints its result. The
lines come from a goroutine that reads the standard input and hands them over on a
channel; the tasks of `StartBackground` run beside it on the same engine; and `run`
waits for both before it closes the engine.

Each of the three is a sequence of moves, and the moves of one may come anywhere
between those of the others. A move is what a goroutine does between two points at
which it may wait: a `select`, a channel, the end of an operation of the engine, which
holds its mutex from one end to the other.
-/

namespace WasmRedis

open GoString

/-! ## What is typed -/

/-- A standard input: its bytes, and the error of the read that ended it, if it was
not its end. -/
structure Input where
  /-- The bytes read. -/
  data : GoString
  /-- The error, if one. -/
  err : Option Err

namespace Input

/-- `bufio.MaxScanTokenSize`: what the buffer of a scanner holds. -/
def maxScanTokenSize : ℕ := 64 * 1024

/-- `bufio.ErrTooLong`. -/
def tooLong : Err := .new (str "bufio.Scanner: token too long")

/-- What `bufio.ScanLines` cuts the input into: what follows the last newline is a line
too, unless it is empty. -/
def pieces (input : Input) : List GoString :=
  let parts := input.data.splitOn newline
  if parts.getLast? = some [] then parts.dropLast else parts

/-- The lines that fit in the buffer of the scanner, up to the first that does not. -/
def fitting (input : Input) : List GoString :=
  input.pieces.takeWhile (fun line => line.length < maxScanTokenSize)

/-- A carriage return before the newline is no part of the line. -/
def dropCR (line : GoString) : GoString :=
  if line.getLast? = some 13 then line.dropLast else line

/-- The lines that `scanner.Scan()` finds. -/
def lines (input : Input) : List GoString := input.fitting.map dropCR

/-- `scanner.Err()`, when there are no more. -/
def scanErr (input : Input) : Return :=
  if input.fitting.length < input.pieces.length then .err tooLong
  else
    match input.err with
    | none => .nil
    | some err => .err err

end Input

/-! ## What is printed -/

/-- What `runCLI` prints first. -/
def greeting (memory : Bool) : GoString :=
  str "WasmRedis — SET, GET, DEL, PING, GET WHERE.\n"
    ++ (if memory then str "Mode mémoire : données perdues à la fermeture.\n"
        else str "Persistance active : journal, snapshots et restauration.\n")
    ++ str "Quitter : EXIT, QUIT ou Ctrl-D.\n"

/-- What it prints before it waits for a line. -/
def prompt : GoString := str "> "

section Printing

-- the text of a deadline in JSON, in the time zone of the process
variable (formatTime : Time → Except Err GoString)

/-- An entry in JSON. -/
def Entry.marshal (entry : Entry) : Except Err Json :=
  match formatTime entry.expiresAt with
  | .error err => .error err
  | .ok expiresAt => .ok (.object [
      (str "key", .string entry.key),
      (str "value", .string entry.value),
      (str "isNumber", .bool entry.isNumber),
      (str "expiresAt", .string expiresAt)])

/-- `json.Marshal(result.Entries)`. -/
def marshalEntries (entries : List Entry) : Except Err GoString :=
  match entries.mapM (Entry.marshal formatTime) with
  | .error err => .error err
  | .ok items => .ok (Json.array items).render

end Printing

section Loop

variable (R : Type) [Strconv R] [TextLib] (formatTime : Time → Except Err GoString)

/-- `result.Entries != nil`, for a line that was executed without an error: it is a
GET WHERE, whose entries may be none, but not nil. -/
def hasEntries (line : GoString) : Bool :=
  match parse R line with
  | .error _ => false
  | .ok cmd => cmd.kind = kindGetWhere

/-- What is printed of the result of a line. -/
def printed (line : GoString) (result : Result) : Except Err GoString :=
  match result.err with
  | some err => .ok (str "erreur: " ++ err.text ++ str "\n")
  | none =>
    if hasEntries R line then
      match marshalEntries formatTime result.entries with
      | .error err => .error err
      | .ok data => .ok (data ++ str "\n")
    else .ok (result.value ++ str "\n")

/-- How a turn of the loop of `runCLI` ends. -/
inductive LoopEnd where
  /-- Something is printed, and the loop goes on. -/
  | again (output : GoString)
  /-- `runCLI` returns. -/
  | returns (result : Return)
  deriving DecidableEq

/-- Whether a line ends the loop. -/
def leaves (line : GoString) : Bool :=
  TextLib.equalFold line (str "EXIT") || TextLib.equalFold line (str "QUIT")

/-- What the standard output has after some turns of the loop. -/
def stdout (memory : Bool) (turns : List LoopEnd) : GoString :=
  greeting memory ++ prompt ++ turns.flatMap (fun turn =>
    match turn with
    | .again output => output ++ prompt
    | .returns _ => [])

/-- A turn of the loop of `runCLI`, once it has a line: `executeString` is what executes
it. -/
def loopTurn {S : Type} (executeString : GoString → Result × S) (s : S) (line : GoString) :
    LoopEnd × S :=
  let line := trimSpace line
  if leaves line then (.returns .nil, s)
  else if line = [] then (.again [], s)
  else
    match executeString line with
    | (result, s) =>
      match printed R formatTime line result with
      | .error err => (.returns (.err err), s)
      | .ok output => (.again output, s)

end Loop

/-! ## The processes -/

namespace Terminal

/-- Where the goroutine that reads the standard input is. -/
inductive Reader where
  /-- In `scanner.Scan()`, which is still to find these lines. -/
  | scanning (rest : List GoString)
  /-- In its `select`, with a line. -/
  | offering (line : GoString) (rest : List GoString)
  /-- It has sent the error of the scanner, and is to close `lines`. -/
  | sent
  /-- It has returned, and `lines` is closed; these lines were not handed over. -/
  | returned (rest : List GoString)
  deriving DecidableEq

/-- Where the goroutine of `main` is. -/
inductive Main where
  /-- In the `select` of `runCLI`. -/
  | selecting
  /-- In `runCLI`, with a line. -/
  | running (line : GoString)
  /-- In `return <-readError`. -/
  | awaiting
  /-- `runCLI` has returned. -/
  | returned (result : Return)
  /-- In `errors.Join(result, <-background)`. -/
  | joining (result : Return)
  /-- In the deferred `Close`. -/
  | closing (result : Return)
  /-- `run` has returned. -/
  | ended (result : Return)
  deriving DecidableEq

/-- Where the goroutine of `StartBackground` is. -/
inductive Background where
  /-- Before its loop. -/
  | starting
  /-- In the `select` of its loop. -/
  | looping
  /-- It has returned. -/
  | returned (result : Return)
  deriving DecidableEq

/-- A move. -/
inductive Move where
  /-- `scanner.Scan()` returns. -/
  | scan
  /-- The reader returns after its loop. -/
  | closeLines
  /-- The reader finds that the context was cancelled. -/
  | abandon
  /-- A line is handed over on `lines`. -/
  | receive
  /-- `runCLI` finds that `lines` is closed. -/
  | eof
  /-- `runCLI` receives from `readError`. -/
  | await
  /-- `runCLI` finds that the context was cancelled. -/
  | done
  /-- `runCLI` executes its line, at an instant. -/
  | execute (r : RangeOrder GoString) (now : Time)
  /-- `run` cancels the context after `runCLI`. -/
  | leave
  /-- `run` receives from `background`. -/
  | join
  /-- `run` closes the engine. -/
  | close (reply : Reply ℕ)
  /-- `StartBackground` comes to its loop. -/
  | begin
  /-- `StartBackground` finds that the context was cancelled. -/
  | quit
  /-- The context is cancelled after `StartBackground`. -/
  | cancel
  /-- A ticker fires, and its task calls the engine before the instant given. -/
  | tick (c : Call) (before : Time)
  /-- SIGINT or SIGTERM is received, and the context is cancelled. -/
  | signal

/-- A move that the processes make by themselves: neither a ticker nor a signal. -/
def Move.own : Move → Bool
  | tick _ _ => false
  | signal => false
  | _ => true

/-- The tasks of the tickers. -/
def Task : Call → Prop
  | .flush _ => True
  | .snapshot _ _ _ => True
  | .sweepExpired _ _ => True
  | _ => False

end Terminal

/-- The processes of `run`, with `-cli`, and what they share. -/
structure Terminal (R : Type) where
  /-- The engine. -/
  engine : Engine R
  /-- An instant that the clock has reached. -/
  clock : Time
  /-- What the scanner returns when it finds no more lines. -/
  scanErr : Return
  /-- The reader. -/
  reader : Terminal.Reader
  /-- What there is in the channel `readError`. -/
  readError : Option Return
  /-- The goroutine of `main`. -/
  main : Terminal.Main
  /-- The goroutine of `StartBackground`. -/
  background : Terminal.Background
  /-- Whether the context was cancelled. -/
  cancelled : Bool

namespace Terminal

variable {R : Type} [LinearOrder R] [Zero R] [Strconv R]

omit [LinearOrder R] [Zero R] [Strconv R] in
/-- The processes when `runCLI` starts. -/
def launched (e : Engine R) (t : Time) (input : Input) : Terminal R :=
  { engine := e, clock := t, scanErr := input.scanErr, reader := .scanning input.lines,
    readError := none, main := .selecting, background := .starting, cancelled := false }

/-- The moves that may be made. A process that is killed in a call of the storage makes
none. -/
def admits (s : Terminal R) : Move → Prop
  | .scan => ∃ rest, s.reader = .scanning rest
  | .closeLines => s.reader = .sent
  | .abandon => (∃ line rest, s.reader = .offering line rest) ∧ s.cancelled = true
  | .receive => s.main = .selecting ∧ ∃ line rest, s.reader = .offering line rest
  | .eof => s.main = .selecting ∧ ∃ rest, s.reader = .returned rest
  | .await => s.main = .awaiting ∧ s.readError ≠ none
  | .done => s.main = .selecting ∧ s.cancelled = true
  | .execute _ now => (∃ line, s.main = .running line) ∧ s.clock ≤ now
  | .leave => ∃ result, s.main = .returned result
  | .join => (∃ result, s.main = .joining result) ∧ ∃ result, s.background = .returned result
  | .close reply => (∃ result, s.main = .closing result) ∧ (s.engine.close reply).1 ≠ .stopped
  | .begin => s.background = .starting
  | .quit => s.background = .looping ∧ s.cancelled = true
  | .cancel => (∃ result, s.background = .returned result) ∧ s.cancelled = false
  | .tick c before => s.background = .looping ∧ Task c ∧ c.Within s.clock before
      ∧ (s.engine.call c).1 ≠ .ended .stopped
  | .signal => True

/-- How a task of a ticker ends: a sweep returns no error. -/
def outcome : Answer → Return
  | .ended how => how
  | _ => .nil

section Step

variable [TextLib] (abs : GoString → Except Err GoString)
  (formatTime : Time → Except Err GoString)

/-- A move, and the turn of the loop of `runCLI` that it makes, if it makes one: the
line, the instant, and how the turn ends. -/
def step (s : Terminal R) : Move → List ((GoString × Time) × LoopEnd) × Terminal R
  | .scan =>
    match s.reader with
    | .scanning [] => ([], { s with reader := .sent, readError := some s.scanErr })
    | .scanning (line :: rest) => ([], { s with reader := .offering line rest })
    | _ => ([], s)
  | .closeLines => ([], { s with reader := .returned [] })
  | .abandon =>
    match s.reader with
    | .offering line rest => ([], { s with reader := .returned (line :: rest) })
    | _ => ([], s)
  | .receive =>
    match s.reader with
    | .offering line rest => ([], { s with reader := .scanning rest, main := .running line })
    | _ => ([], s)
  | .eof => ([], { s with main := .awaiting })
  | .await =>
    match s.readError with
    | some result => ([], { s with readError := none, main := .returned result })
    | none => ([], s)
  | .done => ([], { s with main := .returned .nil })
  | .execute r now =>
    match s.main with
    | .running line =>
      match loopTurn R formatTime (s.engine.executeString r · now) s.engine line with
      | (.again output, e) =>
        ([((line, now), .again output)], { s with engine := e, clock := now, main := .selecting })
      | (.returns result, e) =>
        ([((line, now), .returns result)],
          { s with engine := e, clock := now, main := .returned result })
    | _ => ([], s)
  | .leave =>
    match s.main with
    | .returned result => ([], { s with main := .joining result, cancelled := true })
    | _ => ([], s)
  | .join =>
    match s.main, s.background with
    | .joining result, .returned background =>
      ([], { s with main := .closing (Return.join [result, background]) })
    | _, _ => ([], s)
  | .close reply =>
    match s.main with
    | .closing result =>
      ([], { s with
        engine := (s.engine.close reply).2
        main := .ended (Return.join [result, (s.engine.close reply).1]) })
    | _ => ([], s)
  | .begin =>
    match s.engine.startBackground abs with
    | (some err, e) => ([], { s with engine := e, background := .returned (.err err) })
    | (none, e) => ([], { s with engine := e, background := .looping })
  | .quit =>
    ([], { s with engine := s.engine.stopBackground, background := .returned .nil })
  | .cancel => ([], { s with cancelled := true })
  | .tick c before =>
    match outcome (s.engine.call c).1 with
    | .nil => ([], { s with engine := (s.engine.call c).2, clock := before })
    | result =>
      ([], { s with
        engine := (s.engine.call c).2.stopBackground
        clock := before
        background := .returned result })
  | .signal => ([], { s with cancelled := true })

/-- The processes as a system. -/
def system : System (Terminal R) Move (List ((GoString × Time) × LoopEnd)) where
  admits := admits
  step := step abs formatTime

end Step

end Terminal

end WasmRedis
