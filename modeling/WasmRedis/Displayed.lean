import WasmRedis.Freshness

/-!
# What a poll displays

Over a run, whatever happens in it, the updates that are applied come in order: each is of
a request that was sent after the one before it had arrived. What is displayed is the data
of the last of them that brought data, if it is of the path that is displayed now, so it
never goes back to what the server was before (`polling`).
-/

namespace WasmRedis

open GoString

namespace Polling

variable {S D : Type} {s : Polling S D} {answer : S → GoString → Response D} {error : D → GoString}

/-! ## The steps of a run -/

theorem Sound.step (h : Sound answer error s) (event : Event S) :
    Sound answer error ((system answer error).step s event).2 := by
  have hmoves : Moves answer error s _ _ := happen_moves s event
  exact (h.moves hmoves).later ((now_moves hmoves).le.trans (Nat.le_succ _))

theorem Sound.after (h : Sound answer error s) (es : List (Event S)) :
    Sound answer error ((system answer error).after s es) :=
  (System.admits_of_forall (fun _ _ => trivial) s es).invariant h (fun _ event _ h => h.step event)

theorem now_after (answer : S → GoString → Response D) (error : D → GoString)
    (s : Polling S D) (es : List (Event S)) :
    ((system answer error).after s es).now = s.now + es.length := by
  induction es generalizing s with
  | nil => rfl
  | cons event es ih =>
    refine (ih _).trans ?_
    rw [List.length_cons, Nat.add_comm es.length, ← Nat.add_assoc]
    rfl

/-- The updates that are applied in a run. -/
def updates (answer : S → GoString → Response D) (error : D → GoString) (s : Polling S D)
    (es : List (Event S)) : List (Update S D) :=
  (system answer error).collected (fun _ update => update.toList) s es

/-- **No update is of an effect that is over.** -/
theorem Sound.not_updated (h : Sound answer error s) {i : ℕ} (hover : Over i s)
    (es : List (Event S)) : ∀ update ∈ updates answer error s es, update.effect ≠ i := by
  induction es generalizing s with
  | nil => exact fun _ hmem => absurd hmem List.not_mem_nil
  | cons event es ih =>
    have hmoves : Moves answer error s _ _ := happen_moves s event
    intro update hmem
    rcases List.mem_append.mp hmem with hmem | hmem
    · have hupdate : (s.happen answer error event).1 = some update := Option.mem_toList.mp hmem
      rw [hupdate] at hmoves
      have hlive := ((h.mounted _).mp (h.of_update hmoves).1).2
      rintro rfl
      rw [hover.2] at hlive
      exact absurd hlive (by decide)
    · have hlater : Over i (s.happen answer error event).2 := hover.moves hmoves
      exact ih (h.step event) hlater update hmem

/-- **Updates come in order**, and after all that was past. -/
theorem Sound.updates_ordered (h : Sound answer error s) (es : List (Event S)) :
    (updates answer error s es).Pairwise (fun a b => a.arrived < b.sent)
      ∧ ∀ a : Update S D, Past a.arrived s →
        ∀ b ∈ updates answer error s es, a.arrived < b.sent := by
  refine (System.admits_of_forall (fun _ _ => trivial) s es).pairwise_collected h
    (fun _ event _ h => h.step event) (fun s event _ h => ?_) (fun a s event _ h hpast => ?_)
  · have hmoves : Moves answer error s _ _ := happen_moves s event
    show (s.happen answer error event).1.toList.Pairwise _
      ∧ ∀ a ∈ (s.happen answer error event).1.toList, _
    cases hupdate : (s.happen answer error event).1 with
    | none => exact ⟨List.Pairwise.nil, fun _ hmem => absurd hmem List.not_mem_nil⟩
    | some update =>
      rw [hupdate] at hmoves
      refine ⟨List.pairwise_singleton _ _, fun a hmem => ?_⟩
      obtain rfl := List.mem_singleton.mp hmem
      exact h.past_update hmoves
  · exact h.past_moves hpast (happen_moves s event)

/-- What the result shows is past. -/
def Shown (s : Polling S D) : Prop := ∀ data, s.result.data = some data → Past data.arrived s

theorem Sound.shown_step (h : Sound answer error s) (hshown : Shown s) (event : Event S) :
    Shown ((system answer error).step s event).2 := by
  have hmoves : Moves answer error s _ _ := happen_moves s event
  intro data hdata
  rcases data_moves hmoves hdata with hdata | ⟨i, hupdate⟩
  · exact (h.past_moves (hshown data hdata) hmoves).1
  · rw [hupdate] at hmoves
    exact h.past_update hmoves

/-- The data of the result is what it was, or an update has brought it. -/
theorem data_after {data : Received S D} (es : List (Event S))
    (hdata : ((system answer error).after s es).result.data = some data) :
    s.result.data = some data ∨ ∃ i, .data i data ∈ updates answer error s es := by
  induction es generalizing s with
  | nil => exact .inl hdata
  | cons event es ih =>
    rcases ih hdata with hdata | ⟨i, hmem⟩
    · rcases data_moves (happen_moves s event) hdata with hdata | ⟨i, hupdate⟩
      · exact .inl hdata
      · exact .inr ⟨i, List.mem_append_left _ (Option.mem_toList.mpr hupdate)⟩
    · exact .inr ⟨i, List.mem_append_right _ hmem⟩

/-! ## From the first render -/

section Run

variable (answer : S → GoString → Response D) (error : D → GoString) (path : GoString)
  (revision : ℕ) (server : S)

/-- The component after a run. -/
def run (es : List (Event S)) : Polling S D :=
  (system answer error).after (start path revision server) es

/-- The data that is displayed after a run. -/
def displayed (es : List (Event S)) : Option (Received S D) :=
  (run answer error path revision server es).returned.1

variable {answer error path revision server}

theorem sound_run (es : List (Event S)) :
    Sound answer error (run answer error path revision server es) :=
  (sound_start path revision server).after es

theorem run_append (es fs : List (Event S)) :
    run answer error path revision server (es ++ fs)
      = (system answer error).after (run answer error path revision server es) fs :=
  System.after_append _ _ es fs

theorem shown_run (es : List (Event S)) : Shown (run answer error path revision server es) := by
  have hrun := (System.admits_of_forall (S := system answer error) (fun _ _ => trivial)
    (start path revision server) es).invariant
    (I := fun s => Sound answer error s ∧ Shown s)
    ⟨sound_start path revision server, fun data hdata => by cases hdata⟩
    (fun s event _ h => ⟨h.1.step event, h.1.shown_step h.2 event⟩)
  exact hrun.2

theorem now_run (es : List (Event S)) :
    (run answer error path revision server es).now = es.length :=
  (now_after answer error _ es).trans (Nat.zero_add _)

/-- What is shown was answered from what the server was at its time. -/
theorem dated_run (es : List (Event S)) (n : ℕ) :
    Dated (fun moment => (run answer error path revision server (es.take moment)).server)
      (run answer error path revision server (es.take n)) := by
  induction n with
  | zero =>
    exact ⟨fun fetch hmem => absurd hmem List.not_mem_nil, fun data hdata => by cases hdata⟩
  | succ n ih =>
    rw [List.take_add_one]
    cases hn : es[n]? with
    | none => rwa [Option.toList_none, List.append_nil]
    | some event =>
      have hlt : n < es.length := (List.getElem?_eq_some_iff.mp hn).1
      have hnow : (run answer error path revision server (es.take n)).now = n := by
        rw [now_run, List.length_take_of_le hlt.le]
      have hmoves : Moves answer error (run answer error path revision server (es.take n)) _ _ :=
        happen_moves _ event
      have hdated := ih.moves (by rw [hnow]) hmoves
      rw [run_append]
      exact hdated

/-- Data that is displayed is data of the result, and of the path. -/
theorem returned_data {data : Received S D} (h : s.returned.1 = some data) :
    s.result.data = some data ∧ s.result.path = some s.path := by
  unfold returned at h
  split_ifs at h with hpath
  exact ⟨h, hpath⟩

/-- What is displayed was not answered earlier than what was displayed before. -/
theorem served_le {earlier later : List (Event S)} {a b : Received S D}
    (ha : displayed answer error path revision server earlier = some a)
    (hb : displayed answer error path revision server (earlier ++ later) = some b) :
    a.served ≤ b.served := by
  have ha' := (returned_data ha).1
  have hb' := (returned_data hb).1
  have hsound : Sound answer error (run answer error path revision server earlier) :=
    sound_run earlier
  obtain ⟨_, _, _, hservedA⟩ := hsound.result a ha'
  obtain ⟨_, _, hsentB, _⟩ := (sound_run (earlier ++ later)).result b hb'
  rw [run_append] at hb'
  rcases data_after later hb' with hsame | ⟨i, hmem⟩
  · obtain rfl : a = b := Option.some.inj (ha'.symm.trans hsame)
    exact le_rfl
  · have hlater := (hsound.updates_ordered later).2 (.data i a) (shown_run earlier a ha') _ hmem
    exact hservedA.trans (hlater.le.trans hsentB)

end Run

/-- **What polling displays is never stale, and never of another path.** In whatever way the
component is rendered, its effects are run and its timers fire, and in whatever order the
requests are answered or fail:

* the data that is displayed is what the server answered, at a moment of the run, to a
  request for the path that is displayed;
* when an effect has been cleaned up, for another path or revision or because the component
  goes, no answer and no error of its requests is applied any more, and without an update
  the result stays as it is;
* each answer or error that is applied is of a request that was sent after the one applied
  before it had arrived, and what is displayed is never answered earlier than what was
  displayed before;
* there is at most one request that is not aborted, or one pending timer. -/
theorem polling (answer : S → GoString → Response D) (error : D → GoString) (path : GoString)
    (revision : ℕ) (server : S) (es : List (Event S)) :
    (∀ data, displayed answer error path revision server es = some data →
      data.path = (run answer error path revision server es).path
      ∧ request error (answer data.server data.path) = .ok data.value
      ∧ data.served < es.length
      ∧ data.server = (run answer error path revision server (es.take data.served)).server)
    ∧ (∀ i event, (run answer error path revision server es).mounted = some i →
      event = .flush ∧ (run answer error path revision server es).deps
        ≠ some ((run answer error path revision server es).path,
          (run answer error path revision server es).revision)
      ∨ event = .unmount →
      ∀ fs, ∀ update ∈
          updates answer error (run answer error path revision server (es ++ [event])) fs,
        update.effect ≠ i)
    ∧ (∀ event, ((run answer error path revision server es).happen answer error event).1 = none →
      ((run answer error path revision server es).happen answer error event).2.result
        = (run answer error path revision server es).result)
    ∧ (updates answer error (start path revision server) es).Pairwise
      (fun a b => a.arrived < b.sent)
    ∧ (∀ earlier later, es = earlier ++ later →
      ∀ a b, displayed answer error path revision server earlier = some a →
        displayed answer error path revision server es = some b → a.served ≤ b.served)
    ∧ (run answer error path revision server es).work ≤ 1 := by
  have hsound : Sound answer error (run answer error path revision server es) := sound_run es
  refine ⟨fun data hdata => ?_, fun i event hi hevent fs => ?_, fun event hnone => ?_,
    ((sound_start path revision server).updates_ordered es).1,
    fun earlier later hes a b ha hb => ?_, hsound.work⟩
  · obtain ⟨hresult, hpath⟩ := returned_data hdata
    obtain ⟨hdatapath, hrequest, _, hserved⟩ := hsound.result data hresult
    have hpast := (shown_run es data hresult).1
    rw [now_run] at hpast
    have hdated := (dated_run es es.length).2 data (by rwa [List.take_length])
    exact ⟨Option.some.inj (hdatapath.symm.trans hpath), hrequest, hserved.trans_lt hpast, hdated⟩
  · have hover : Over i (run answer error path revision server (es ++ [event])) := by
      rw [run_append]
      rcases hevent with ⟨rfl, hdeps⟩ | rfl
      · exact hsound.over_flush hi hdeps
      · exact hsound.over_cleaned hi
    exact (sound_run (es ++ [event])).not_updated hover fs
  · have hmoves : Moves answer error (run answer error path revision server es) _ _ :=
      happen_moves _ event
    rw [hnone] at hmoves
    exact result_moves hmoves
  · subst hes
    exact served_le ha hb

/-- A path is left while its request is under way, and its answer comes last. -/
def lateAnswer : List (Event ℕ) :=
  [.serve 0, .change 2, .render (str "/b") 0, .flush, .serve 1, .respond 1, .respond 0]

/-- A server that answers with its state. -/
def echo (server : ℕ) (_ : GoString) : Response ℕ := { status := 200, json := .ok server }

theorem polling_late :
    (displayed echo (fun _ => []) (str "/a") 0 1 (.flush :: lateAnswer)).map Received.value = some 2
      ∧ (run echo (fun _ => []) (str "/a") 0 1 (.flush :: lateAnswer)).work ≤ 1
      ∧ ∀ update ∈ updates echo (fun _ => [])
        (run echo (fun _ => []) (str "/a") 0 1 [.flush, .render (str "/b") 0, .flush]) lateAnswer,
        update.effect ≠ 0 := by
  have hlate := polling echo (fun _ => []) (str "/a") 0 1 (.flush :: lateAnswer)
  have hleft := polling echo (fun _ => []) (str "/a") 0 1 [.flush, .render (str "/b") 0]
  have hdeps : (run echo (fun _ => []) (str "/a") 0 1 [.flush, .render (str "/b") 0]).deps
      ≠ some (str "/b", 0) := by decide
  exact ⟨by decide, hlate.2.2.2.2.2, hleft.2.1 0 .flush rfl (.inl ⟨rfl, hdeps⟩) lateAnswer⟩

end Polling

end WasmRedis
