import WasmRedis.Conversation

/-!
# How the terminal ends

The processes of `run` wait for each other: the loop for the reader, the reader for the
loop, and `run` for both and for the background tasks. Each move that they make by
themselves lowers a potential, so there are not many of them, and when there are none
left `run` has returned – or it never will.

The second happens in one way (`shutdown`). A reader that has a line when the context is
cancelled returns without having sent its error, and closes `lines` as it does; a loop
that then finds `lines` closed, before it looks at the context, waits for that error.
-/

namespace WasmRedis

open GoString

variable {R : Type} [LinearOrder R] [Zero R] [Strconv R]

namespace Terminal

/-! ## The potential -/

/-- How many moves may come of the reader, with those of the loop for its lines. -/
def Reader.potential : Reader → ℕ
  | .scanning rest => 3 * rest.length + 2
  | .offering _ rest => 3 * rest.length + 4
  | .sent => 1
  | .returned _ => 0

/-- How many of `main`. -/
def Main.potential : Main → ℕ
  | .running _ => 6
  | .selecting => 5
  | .awaiting => 4
  | .returned _ => 3
  | .joining _ => 2
  | .closing _ => 1
  | .ended _ => 0

/-- How many of the background tasks, beside the tickers. -/
def Background.potential : Background → ℕ
  | .starting => 2
  | .looping => 1
  | .returned _ => 0

omit [LinearOrder R] [Zero R] [Strconv R] in
/-- How many moves may come. -/
def potential (s : Terminal R) : ℕ :=
  s.reader.potential + s.main.potential + s.background.potential
    + if s.cancelled then 0 else 1

theorem Main.potential_after (turn : LoopEnd) : (Main.after turn).potential ≤ 5 := by
  cases turn with
  | again output => exact le_rfl
  | returns result => exact Nat.le_add_right 3 2

theorem Background.potential_begun (started : Option Err) :
    (Background.begun started).potential ≤ 1 := by
  cases started with
  | none => exact le_rfl
  | some err => exact zero_le_one

theorem Background.potential_after (result : Return) :
    (Background.after result).potential ≤ 1 := by
  cases result with
  | nil => exact le_rfl
  | err err => exact zero_le_one
  | stopped => exact zero_le_one

section Runs

variable [TextLib] {abs : GoString → Except Err GoString}
  {formatTime : Time → Except Err GoString} {s s' : Terminal R} {move : Move}
  {turns : List ((GoString × Time) × LoopEnd)}

/-- **Each move of the processes lowers the potential**, and nothing raises it. -/
theorem Makes.potential (h : Makes abs formatTime s move turns s') :
    s'.potential + (if move.own then 1 else 0) ≤ s.potential := by
  have hcancelled : (if s.cancelled then 0 else 1) ≤ 1 := by split_ifs <;> decide
  unfold Terminal.potential
  cases h with
  | exhausted hreader =>
    simp only [Move.own, hreader, Reader.potential, List.length_nil, ↓reduceIte]
    omega
  | found hreader =>
    simp only [Move.own, hreader, Reader.potential, List.length_cons, ↓reduceIte]
    omega
  | closeLines hreader =>
    simp only [Move.own, hreader, Reader.potential, ↓reduceIte]
    omega
  | abandon hreader _ =>
    simp only [Move.own, hreader, Reader.potential, ↓reduceIte]
    omega
  | receive hmain hreader =>
    simp only [Move.own, hmain, hreader, Reader.potential, Main.potential, ↓reduceIte]
    omega
  | eof hmain _ =>
    simp only [Move.own, hmain, Main.potential, ↓reduceIte]
    omega
  | await hmain _ =>
    simp only [Move.own, hmain, Main.potential, ↓reduceIte]
    omega
  | done hmain _ =>
    simp only [Move.own, hmain, Main.potential, ↓reduceIte]
    omega
  | @execute r now line turn e hmain _ _ =>
    have hafter := Main.potential_after turn
    have hrunning : (Main.running line).potential = 6 := rfl
    simp only [Move.own, hmain, hrunning, ↓reduceIte]
    omega
  | leave hmain =>
    simp only [Move.own, hmain, Main.potential, ↓reduceIte]
    omega
  | join hmain _ =>
    simp only [Move.own, hmain, Main.potential, ↓reduceIte]
    omega
  | close hmain _ =>
    simp only [Move.own, hmain, Main.potential, ↓reduceIte]
    omega
  | @begin started e hbackground _ =>
    have hbegun := Background.potential_begun started
    have hstarting : Background.starting.potential = 2 := rfl
    simp only [Move.own, hbackground, hstarting, ↓reduceIte]
    omega
  | quit hbackground _ =>
    simp only [Move.own, hbackground, Background.potential, ↓reduceIte]
    omega
  | cancel _ hnot =>
    simp only [Move.own, hnot, ↓reduceIte, Bool.false_eq_true]
    omega
  | @tick c before hbackground _ _ _ =>
    have hafter := Background.potential_after (outcome (s.engine.call c).1)
    have hlooping : Background.looping.potential = 1 := rfl
    simp only [Move.own, hbackground, hlooping, ↓reduceIte, Bool.false_eq_true]
    omega
  | signal =>
    simp only [Move.own, ↓reduceIte, Bool.false_eq_true]
    omega

/-! ## When no move is left -/

/-- **`runCLI` waits for an error that is never sent.** -/
def Hung (s : Terminal R) : Prop :=
  s.main = .awaiting ∧ ∃ line rest, s.reader = .returned (line :: rest)

omit [LinearOrder R] [Zero R] [Strconv R] [TextLib] in
/-- A `Close` whose storage calls succeed returns nil. -/
theorem close_ok (e : Engine R) : (e.close .ok).1 = .nil := by
  unfold Engine.close
  split_ifs
  · rfl
  · cases hstore : e.store with
    | none => rw [Engine.flush_of_none hstore]
    | some store =>
      by_cases hbuf : e.buffer = []
      · rw [Engine.flush_of_empty hbuf]
      · unfold Engine.flush
        rw [hstore]
        dsimp only
        rw [if_neg hbuf]
        rfl

omit [TextLib] in
/-- **The processes do not wait for each other in a circle.** -/
theorem Sound.progress (h : s.Sound) (hstuck : ∀ move, move.own = true → ¬ admits s move) :
    (∃ result, s.main = .ended result) ∨ s.Hung := by
  have hreader : ∀ reader, s.reader = reader → reader.Fits s.readError s.scanErr s.main :=
    fun reader hreader => hreader ▸ h.reader
  cases hmain : s.main with
  | selecting =>
    cases hr : s.reader with
    | scanning rest => exact absurd ⟨rest, hr⟩ (hstuck .scan rfl)
    | offering line rest => exact absurd ⟨hmain, line, rest, hr⟩ (hstuck .receive rfl)
    | sent => exact absurd hr (hstuck .closeLines rfl)
    | returned rest => exact absurd ⟨hmain, rest, hr⟩ (hstuck .eof rfl)
  | running line =>
    exact absurd ⟨⟨line, hmain⟩, le_rfl⟩ (hstuck (.execute RangeOrder.sorted s.clock) rfl)
  | awaiting =>
    cases hr : s.reader with
    | scanning rest => exact absurd hmain (hreader _ hr).2
    | offering line rest => exact absurd hmain (hreader _ hr).2
    | sent => exact absurd hmain (hreader _ hr).2
    | returned rest =>
      cases rest with
      | nil =>
        have hsome : s.readError = some s.scanErr := hreader _ hr (by rw [hmain]; trivial)
        exact absurd ⟨hmain, hsome ▸ Option.some_ne_none _⟩ (hstuck .await rfl)
      | cons line rest => exact Or.inr ⟨hmain, line, rest, hr⟩
  | returned result => exact absurd ⟨result, hmain⟩ (hstuck .leave rfl)
  | joining result =>
    cases hbackground : s.background with
    | starting => exact absurd hbackground (hstuck .begin rfl)
    | looping => exact absurd ⟨hbackground, h.joining result hmain⟩ (hstuck .quit rfl)
    | returned background =>
      exact absurd ⟨⟨result, hmain⟩, background, hbackground⟩ (hstuck .join rfl)
  | closing result =>
    exact absurd ⟨⟨result, hmain⟩, (close_ok s.engine).symm ▸ Return.noConfusion⟩
      (hstuck (.close .ok) rfl)
  | ended result => exact Or.inl ⟨result, rfl⟩

/-! ## When it is for ever -/

/-- **What has been** when the processes are as they are. -/
structure Gone (moves : List Move) (s : Terminal R) : Prop where
  /-- The invariant. -/
  sound : s.Sound
  /-- The reader has left lines exactly if it found the context cancelled. -/
  abandoned : .abandon ∈ moves ↔ ∃ line rest, s.reader = .returned (line :: rest)
  /-- The loop waits for the error once it has found `lines` closed. -/
  awaiting : s.main = .awaiting → .eof ∈ moves
  /-- And as long as it is not sent. -/
  closed : .eof ∈ moves → (∃ rest, s.reader = .returned rest)
    ∧ ((∃ line rest, s.reader = .returned (line :: rest)) → s.main = .awaiting)

omit [LinearOrder R] [Zero R] [Strconv R] [TextLib] in
theorem gone_launched (e : Engine R) (t : Time) (input : Input) :
    Gone [] (launched e t input) where
  sound := sound_launched e t input
  abandoned := iff_of_false List.not_mem_nil (fun ⟨_, _, h⟩ => Reader.noConfusion h)
  awaiting h := Main.noConfusion h
  closed h := absurd h List.not_mem_nil

omit [LinearOrder R] [Zero R] [Strconv R] [TextLib] in
/-- A move that is not one of the two, and leaves the reader with its lines. -/
theorem Gone.other {moves : List Move} (h : Gone moves s) (hsound : s'.Sound)
    (hreader : ∀ rest, s'.reader = .returned rest ↔ s.reader = .returned rest)
    (hmain : s'.main = .awaiting ↔ s.main = .awaiting) (hne : move ≠ .abandon ∧ move ≠ .eof) :
    Gone (moves ++ [move]) s' where
  sound := hsound
  abandoned := by
    simp only [List.mem_append, List.mem_singleton, hne.1.symm, or_false, hreader]
    exact h.abandoned
  awaiting hawaiting := List.mem_append_left _ (h.awaiting (hmain.mp hawaiting))
  closed hmem := by
    simp only [List.mem_append, List.mem_singleton, hne.2.symm, or_false] at hmem
    simp only [hreader, hmain]
    exact h.closed hmem

/-- **Every move keeps what has been.** -/
theorem Gone.makes {moves : List Move} (h : Gone moves s)
    (hmakes : Makes abs formatTime s move turns s') : Gone (moves ++ [move]) s' := by
  have hsound := h.sound.makes hmakes
  -- the reader has not returned, and what it does now is not to return with lines
  have hneither : ∀ reader, s.reader = reader → (∀ rest, reader ≠ .returned rest) →
      .abandon ∉ moves ∧ .eof ∉ moves := by
    rintro reader rfl hne
    constructor
    · intro hmem
      obtain ⟨line, rest, hreader⟩ := h.abandoned.mp hmem
      exact hne _ hreader
    · intro hmem
      obtain ⟨rest, hreader⟩ := (h.closed hmem).1
      exact hne _ hreader
  cases hmakes with
  | exhausted hreader =>
    exact h.other hsound
      (fun rest => iff_of_false Reader.noConfusion (fun hr => by rw [hreader] at hr; cases hr))
      Iff.rfl ⟨Move.noConfusion, Move.noConfusion⟩
  | found hreader =>
    exact h.other hsound
      (fun rest => iff_of_false Reader.noConfusion (fun hr => by rw [hreader] at hr; cases hr))
      Iff.rfl ⟨Move.noConfusion, Move.noConfusion⟩
  | receive hmain hreader =>
    exact h.other hsound
      (fun rest => iff_of_false Reader.noConfusion (fun hr => by rw [hreader] at hr; cases hr))
      (iff_of_false Main.noConfusion (fun hm => by rw [hmain] at hm; cases hm))
      ⟨Move.noConfusion, Move.noConfusion⟩
  | closeLines hreader =>
    obtain ⟨hnever, hopen⟩ := hneither _ hreader (fun _ => Reader.noConfusion)
    refine ⟨hsound, iff_of_false (fun hmem => ?_) (fun ⟨_, _, hr⟩ => by cases hr),
      fun hawaiting => List.mem_append_left _ (h.awaiting hawaiting), fun hmem => ?_⟩
    · obtain hmem | hmem := List.mem_append.mp hmem
      · exact hnever hmem
      · cases List.mem_singleton.mp hmem
    · obtain hmem | hmem := List.mem_append.mp hmem
      · exact absurd hmem hopen
      · cases List.mem_singleton.mp hmem
  | @abandon line rest hreader _ =>
    obtain ⟨_, hopen⟩ := hneither _ hreader (fun _ => Reader.noConfusion)
    refine ⟨hsound, iff_of_true (List.mem_append_right _ (List.mem_singleton_self _))
        ⟨line, rest, rfl⟩,
      fun hawaiting => List.mem_append_left _ (h.awaiting hawaiting), fun hmem => ?_⟩
    obtain hmem | hmem := List.mem_append.mp hmem
    · exact absurd hmem hopen
    · cases List.mem_singleton.mp hmem
  | @eof rest hmain hreader =>
    refine ⟨hsound, ?_, fun _ => List.mem_append_right _ (List.mem_singleton_self _),
      fun _ => ⟨⟨rest, hreader⟩, fun _ => rfl⟩⟩
    rw [List.mem_append, List.mem_singleton]
    exact (or_iff_left Move.noConfusion).trans h.abandoned
  | await hmain hresult =>
    have hreader := (h.sound.await hmain hresult).2
    refine ⟨hsound, ?_, fun hawaiting => Main.noConfusion hawaiting,
      fun _ => ⟨⟨[], hreader⟩, fun ⟨line, rest, hr⟩ => ?_⟩⟩
    · rw [List.mem_append, List.mem_singleton]
      exact (or_iff_left Move.noConfusion).trans h.abandoned
    · have hcons : s.reader = .returned (line :: rest) := hr
      rw [hreader] at hcons
      cases hcons
  | done hmain _ =>
    exact h.other hsound (fun _ => Iff.rfl)
      (iff_of_false Main.noConfusion (fun hm => by rw [hmain] at hm; cases hm))
      ⟨Move.noConfusion, Move.noConfusion⟩
  | @execute r now line turn e hmain _ _ =>
    exact h.other hsound (fun _ => Iff.rfl)
      (iff_of_false (Main.after_ne turn).1 (fun hm => by rw [hmain] at hm; cases hm))
      ⟨Move.noConfusion, Move.noConfusion⟩
  | leave hmain =>
    exact h.other hsound (fun _ => Iff.rfl)
      (iff_of_false Main.noConfusion (fun hm => by rw [hmain] at hm; cases hm))
      ⟨Move.noConfusion, Move.noConfusion⟩
  | join hmain _ =>
    exact h.other hsound (fun _ => Iff.rfl)
      (iff_of_false Main.noConfusion (fun hm => by rw [hmain] at hm; cases hm))
      ⟨Move.noConfusion, Move.noConfusion⟩
  | close hmain _ =>
    exact h.other hsound (fun _ => Iff.rfl)
      (iff_of_false Main.noConfusion (fun hm => by rw [hmain] at hm; cases hm))
      ⟨Move.noConfusion, Move.noConfusion⟩
  | _ => exact h.other hsound (fun _ => Iff.rfl) Iff.rfl ⟨Move.noConfusion, Move.noConfusion⟩

/-- What has been in a run. -/
theorem gone_after {e : Engine R} {t : Time} {input : Input} {moves : List Move}
    (hrun : (system abs formatTime).Admits (launched e t input) moves) :
    Gone moves ((system abs formatTime).after (launched e t input) moves) := by
  refine System.Admits.induction (P := fun moves =>
    Gone moves ((system abs formatTime).after (launched e t input) moves)) hrun
    (gone_launched e t input) (fun moves move _ hadm h => ?_)
  rw [System.after_concat]
  have hmakes : Makes abs formatTime ((system abs formatTime).after (launched e t input) moves)
      move _ _ := makes hadm
  exact h.makes hmakes

/-- **How the terminal ends.** Whatever is typed, and whatever the tickers, the storage
and the signals do: the processes make at most three moves for each line and ten more;
when they can make none, `run` has returned, or the reader has left a line because the
context was cancelled and the loop has found `lines` closed; and once both have happened
`run` never returns, and the engine is not closed. -/
theorem shutdown {e : Engine R} {t : Time} {input : Input} {moves : List Move}
    (hrun : (system abs formatTime).Admits (launched e t input) moves) :
    moves.countP Move.own ≤ 3 * input.lines.length + 10
      ∧ ((∀ move, move.own = true →
            ¬ admits ((system abs formatTime).after (launched e t input) moves) move) →
          (∃ result, ((system abs formatTime).after (launched e t input) moves).main
              = .ended result)
            ∨ .abandon ∈ moves ∧ .eof ∈ moves)
      ∧ (.abandon ∈ moves → .eof ∈ moves → ∀ more,
          (system abs formatTime).Admits (launched e t input) (moves ++ more) →
          ((system abs formatTime).after (launched e t input) (moves ++ more)).main
            = .awaiting) := by
  have hgone := gone_after hrun
  refine ⟨?_, fun hstuck => ?_, fun habandon heof more hmore => ?_⟩
  · have hpotential := hrun.countP_le potential (fun s move hadm => (makes hadm).potential)
    have hstart : (launched e t input).potential = 3 * input.lines.length + 10 := by
      show 3 * input.lines.length + 2 + 5 + 2 + 1 = _
      omega
    omega
  · refine (hgone.sound.progress hstuck).imp_right (fun ⟨hmain, hreader⟩ => ?_)
    exact ⟨hgone.abandoned.mpr hreader, hgone.awaiting hmain⟩
  · have hlater := gone_after hmore
    exact (hlater.closed (List.mem_append_left _ heof)).2
      (hlater.abandoned.mp (List.mem_append_left _ habandon))

/-- Two lines that are piped in. -/
def twoPings : Input := { data := str "PING\nPING\n", err := none }

/-- A signal comes while the first is executed, and the reader has the second. -/
def interrupted : List Move :=
  [.scan, .receive, .scan, .signal, .abandon, .execute RangeOrder.sorted 1, .eof]

omit [TextLib] in
theorem shutdown_interrupted :
    let _ := TextLib.ascii
    ((system Except.ok noDeadline).after (launched (Engine.new : Engine ℕ) 0 twoPings)
      (interrupted ++ [.begin, .quit])).main = .awaiting := by
  let _ := TextLib.ascii
  have hmore : (system Except.ok noDeadline).Admits
      (launched (Engine.new : Engine ℕ) 0 twoPings) (interrupted ++ [.begin, .quit]) := by
    refine ⟨⟨_, rfl⟩, ⟨rfl, _, _, rfl⟩, ⟨_, rfl⟩, trivial, ⟨⟨_, _, rfl⟩, rfl⟩,
      ⟨⟨_, rfl⟩, by decide⟩, ⟨?_, [str "PING"], ?_⟩, show _ = _ from ?_, ⟨?_, ?_⟩, trivial⟩
    all_goals decide +kernel
  exact (shutdown (((system _ _).admits_append _ interrupted _).mp hmore).1).2.2
    (by simp [interrupted]) (by simp [interrupted]) _ hmore

end Runs

end Terminal

end WasmRedis
