import WasmRedis.PollingInvariant

/-!
# Fresh data

When the answer to a request is applied, that request was the only thing under way, and
whatever is sent later is sent after it has come (`Past`). This is why no data is ever
followed by older data, in whatever order the answers come: those that are late belong to
effects that are aborted.
-/

namespace WasmRedis

open GoString

namespace Polling

variable {S D : Type} {s s' : Polling S D} {answer : S → GoString → Response D}
  {error : D → GoString} {update : Option (Update S D)}

/-! ## One event -/

/-- An update is made by the mounted effect, at once when its request is over. -/
theorem Sound.of_update (h : Sound answer error s) {update : Update S D}
    (hmoves : Moves answer error s (some update) s') :
    s.mounted = some update.effect ∧ update.arrived = s.now
      ∧ ∃ fetch ∈ s.fetches, s.Alive fetch ∧ fetch.sent = update.sent := by
  cases hmoves with
  | settle k fetch _ result hk halive hends =>
    have hmem := List.mem_of_getElem? hk
    have hmounted := h.mounted_of_alive hmem halive
    cases hends with
    | data => exact ⟨hmounted, rfl, fetch, hmem, halive, rfl⟩
    | error message => exact ⟨hmounted, rfl, fetch, hmem, halive, rfl⟩

theorem now_moves (hmoves : Moves answer error s update s') : s'.now = s.now := by
  cases hmoves with
  | stay | poll | serve | drop | settle => rfl
  | stop deps => exact cleaned_now s
  | restart deps hpath =>
    rw [setup_cleaned hpath]
    exact cleaned_now s

/-- The result changes with an update only. -/
theorem result_moves (hmoves : Moves answer error s none s') : s'.result = s.result := by
  cases hmoves with
  | stay | poll | serve | drop => rfl
  | stop deps => exact cleaned_result s
  | restart deps hpath =>
    rw [setup_cleaned hpath]
    exact cleaned_result s

/-- The data of the result stays, unless an update brings other data. -/
theorem data_moves (hmoves : Moves answer error s update s') {data : Received S D}
    (hdata : s'.result.data = some data) :
    s.result.data = some data ∨ ∃ i, update = some (.data i data) := by
  cases update with
  | none => exact .inl (result_moves hmoves ▸ hdata)
  | some update =>
    cases hmoves with
    | settle k fetch _ result _ _ hends =>
      cases hends with
      | data =>
        cases hdata
        exact .inr ⟨_, rfl⟩
      | error message =>
        change (if _ then _ else _) = _ at hdata
        split_ifs at hdata
        exact .inl hdata

/-- After the cleanup no request is alive, of those there were. -/
theorem Sound.dead_cleaned (h : Sound answer error s) {fetch : Fetch S}
    (hmem : fetch ∈ s.fetches) : ¬ s.cleaned.Alive fetch := by
  obtain ⟨hc, hnone⟩ := h.cleaned
  exact hc.not_alive_of_none hnone (cleaned_fetches s ▸ hmem)

/-- A request that is alive after an event was so before, or has just been sent. -/
theorem Sound.alive_moves (h : Sound answer error s) (hmoves : Moves answer error s update s')
    {fetch : Fetch S} (hmem : fetch ∈ s'.fetches) (halive : s'.Alive fetch) :
    fetch.sent = s.now ∨ ∃ fetch' ∈ s.fetches, s.Alive fetch' ∧ fetch'.sent = fetch.sent := by
  cases hmoves with
  | stay path revision server => exact .inr ⟨fetch, hmem, halive, rfl⟩
  | stop deps =>
    change fetch ∈ s.cleaned.fetches at hmem
    rw [cleaned_fetches] at hmem
    exact absurd halive (h.dead_cleaned hmem)
  | restart deps hpath =>
    rw [setup_cleaned hpath] at hmem halive
    rcases List.mem_append.mp hmem with hmem | hmem
    · -- no request of an effect that has been cleaned up is alive again
      change fetch ∈ s.cleaned.fetches at hmem
      have hlt := (h.cleaned.1.fetches fetch hmem).1
      have halive' : s.cleaned.Alive fetch :=
        (congrArg Effect.aborted (begun_effects s.cleaned hlt)).symm.trans halive
      rw [cleaned_fetches] at hmem
      exact absurd halive' (h.dead_cleaned hmem)
    · obtain rfl := List.mem_singleton.mp hmem
      exact .inl (cleaned_now s)
  | poll k timer hk =>
    rcases List.mem_append.mp hmem with hmem | hmem
    · exact .inr ⟨fetch, hmem, halive, rfl⟩
    · obtain rfl := List.mem_singleton.mp hmem
      exact .inl rfl
  | serve k fetch' hk hserved =>
    rcases List.mem_or_eq_of_mem_set hmem with hmem | rfl
    · exact .inr ⟨fetch, hmem, halive, rfl⟩
    · exact .inr ⟨fetch', List.mem_of_getElem? hk, halive, rfl⟩
  | drop k fetch' hk haborted =>
    exact .inr ⟨fetch, List.mem_of_mem_eraseIdx hmem, halive, rfl⟩
  | settle k fetch' update result hk halive' hends =>
    refine .inr ⟨fetch, List.mem_of_mem_eraseIdx hmem, ?_, rfl⟩
    rwa [Alive, settled_aborted] at halive

/-! ## What is past -/

/-- A moment is past, and each request that is alive was sent after it. -/
def Past (moment : ℕ) (s : Polling S D) : Prop :=
  moment < s.now ∧ ∀ fetch ∈ s.fetches, s.Alive fetch → moment < fetch.sent

/-- What is past stays so, and an update that is made then is of a later request. -/
theorem Sound.past_moves (h : Sound answer error s) {moment : ℕ} (hpast : Past moment s)
    (hmoves : Moves answer error s update s') :
    Past moment { s' with now := s.now + 1 }
      ∧ ∀ later ∈ update.toList, moment < later.sent := by
  refine ⟨⟨hpast.1.trans (Nat.lt_succ_self _), fun fetch hmem halive => ?_⟩,
    fun later hlater => ?_⟩
  · rcases h.alive_moves hmoves hmem halive with hsent | ⟨fetch', hmem', halive', hsent⟩
    · rw [hsent]
      exact hpast.1
    · rw [← hsent]
      exact hpast.2 fetch' hmem' halive'
  · obtain rfl := Option.mem_toList.mp hlater
    obtain ⟨_, _, fetch, hmem, halive, hsent⟩ := h.of_update hmoves
    rw [← hsent]
    exact hpast.2 fetch hmem halive

/-- **When an update is made, its moment is past**: no request is alive any more. -/
theorem Sound.past_update (h : Sound answer error s) {update : Update S D}
    (hmoves : Moves answer error s (some update) s') :
    Past update.arrived { s' with now := s.now + 1 } := by
  rw [(h.of_update hmoves).2.1]
  refine ⟨Nat.lt_succ_self _, fun fetch hmem halive => ?_⟩
  cases hmoves with
  | settle k fetch' _ result hk halive' hends =>
    change (s.settled k fetch'.effect result).Alive fetch at halive
    rw [Alive, settled_aborted] at halive
    exact absurd halive ((h.alone hk halive').2 fetch hmem)

/-! ## What is over -/

/-- An effect has been run, and aborted. -/
def Over (i : ℕ) (s : Polling S D) : Prop := i < s.started ∧ (s.effects i).aborted = true

theorem Over.cleaned {i : ℕ} (hover : Over i s) : Over i s.cleaned := by
  refine ⟨(cleaned_started s).symm ▸ hover.1, ?_⟩
  unfold Polling.cleaned
  cases s.mounted with
  | none => exact hover.2
  | some j =>
    refine Bool.eq_true_of_not_eq_false (fun hlive => ?_)
    have hlive' := ((cleanup_aborted s j i).mp hlive).2
    rw [hover.2] at hlive'
    exact absurd hlive' (by decide)

/-- The cleanup of the mounted effect. -/
theorem Sound.over_cleaned (h : Sound answer error s) {i : ℕ} (hi : s.mounted = some i) :
    Over i s.cleaned := by
  obtain ⟨hc, hnone⟩ := h.cleaned
  have hlt : i < s.cleaned.started := (cleaned_started s).symm ▸ ((h.mounted i).mp hi).1
  refine ⟨hlt, Bool.eq_true_of_not_eq_false (fun hlive => ?_)⟩
  have hmounted := (hc.mounted i).mpr ⟨hlt, hlive⟩
  rw [hnone] at hmounted
  cases hmounted

theorem Over.setup {i : ℕ} (hover : Over i s) : Over i s.setup := by
  unfold Polling.setup
  split_ifs
  · exact hover
  · exact ⟨hover.1.trans (Nat.lt_succ_self _),
      (congrArg Effect.aborted (begun_effects s hover.1)).trans hover.2⟩

/-- What is over stays so. -/
theorem Over.moves {i : ℕ} (hover : Over i s) (hmoves : Moves answer error s update s') :
    Over i s' := by
  cases hmoves with
  | stay | poll | serve | drop => exact hover
  | stop deps => exact hover.cleaned
  | restart deps hpath => exact Over.setup (s := { s.cleaned with deps := deps }) hover.cleaned
  | settle k fetch update result hk halive hends =>
    exact ⟨hover.1, (settled_aborted s k _ result i).trans hover.2⟩

/-- The cleanup that a new path or a new revision calls for. -/
theorem Sound.over_flush (h : Sound answer error s) {i : ℕ} (hi : s.mounted = some i)
    (hdeps : s.deps ≠ some (s.path, s.revision)) : Over i s.flush := by
  unfold flush
  rw [if_neg hdeps]
  exact Over.setup (s := { s.cleaned with deps := some (s.path, s.revision) })
    (h.over_cleaned hi)

/-! ## What the server was -/

/-- Answers come from the states that the server had when it gave them. -/
def Dated (history : ℕ → S) (s : Polling S D) : Prop :=
  (∀ fetch ∈ s.fetches, ∀ server served, fetch.served = some (server, served) →
    server = history served)
  ∧ ∀ data, s.result.data = some data → data.server = history data.served

theorem Dated.cleaned {history : ℕ → S} (h : Dated history s) : Dated history s.cleaned :=
  ⟨(cleaned_fetches s).symm ▸ h.1, (cleaned_result s).symm ▸ h.2⟩

theorem Dated.load {history : ℕ → S} (h : Dated history s) (i : ℕ) :
    Dated history (s.load i) := by
  refine ⟨fun fetch hmem server served heq => ?_, h.2⟩
  rcases List.mem_append.mp hmem with hmem | hmem
  · exact h.1 fetch hmem server served heq
  · obtain rfl := List.mem_singleton.mp hmem
    cases heq

theorem Dated.settle {history : ℕ → S} (h : Dated history s) {fetch : Fetch S}
    (hmem : fetch ∈ s.fetches) {update : Update S D} {result : Result S D}
    (hends : Ends answer error s fetch update result) (k : ℕ) :
    Dated history (s.settled k fetch.effect result) := by
  refine ⟨fun fetch' hmem' => h.1 fetch' (List.mem_of_mem_eraseIdx hmem'), fun data hdata => ?_⟩
  cases hends with
  | data hserved =>
    cases hdata
    exact h.1 fetch hmem _ _ hserved
  | error message =>
    change (if _ then _ else _) = _ at hdata
    split_ifs at hdata
    exact h.2 data hdata

theorem Dated.moves {history : ℕ → S} (h : Dated history s) (hnow : s.server = history s.now)
    (hmoves : Moves answer error s update s') : Dated history s' := by
  cases hmoves with
  | stay path revision server => exact h
  | stop deps => exact h.cleaned
  | restart deps hpath =>
    rw [setup_cleaned hpath]
    exact Dated.load (s := { s.cleaned with deps := deps }.begun) h.cleaned _
  | poll k timer hk =>
    exact Dated.load (s := { s with timers := s.timers.eraseIdx k }) h _
  | serve k fetch hk hserved =>
    refine ⟨fun fetch' hmem server served heq => ?_, h.2⟩
    rcases List.mem_or_eq_of_mem_set hmem with hmem | rfl
    · exact h.1 fetch' hmem server served heq
    · cases heq
      exact hnow
  | drop k fetch hk haborted =>
    exact ⟨fun fetch' hmem => h.1 fetch' (List.mem_of_mem_eraseIdx hmem), h.2⟩
  | settle k fetch update result hk halive hends =>
    exact h.settle (List.mem_of_getElem? hk) hends k

end Polling

end WasmRedis
