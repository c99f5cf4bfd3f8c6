import Mathlib

/-!
# Go maps and the loops that range over them

A Go map is a finite map, `GoMap α β`. A `for key, value := range m` loop
visits every key once, in an order the language does not fix, so a model of
such a loop takes the order as an argument: a `RangeOrder` lists every finite
set of keys, in any way, and a statement about all range orders is a statement
about all the runs the language allows.

Two rules carry what is proved about the loops. `range_induction` is the
invariant rule. `lookup_rangeFold` is for the loops that only ever touch the
key they are visiting: whatever the order, their result is read key by key.
-/

/-- A Go map. -/
abbrev GoMap (α β : Type) := Finmap fun _ : α => β

/-- **An order of iteration**: every finite set of keys is listed, each key
once. The language promises nothing more. -/
structure RangeOrder (α : Type) where
  /-- The order in which the keys of a set are visited. -/
  list : Finset α → List α
  /-- No key is visited twice. -/
  nodup : ∀ s, (list s).Nodup
  /-- The keys visited are those of the set. -/
  mem_list : ∀ s a, a ∈ list s ↔ a ∈ s

namespace RangeOrder

variable {α : Type}

/-- The increasing order. -/
def sorted [LinearOrder α] : RangeOrder α where
  list s := Quot.liftOn s.val (fun l => l.insertionSort (· ≤ ·)) (fun a b h =>
    List.Perm.eq_of_pairwise' (List.pairwise_insertionSort _ a) (List.pairwise_insertionSort _ b)
      ((List.perm_insertionSort _ a).trans (h.trans (List.perm_insertionSort _ b).symm)))
  nodup s := by
    obtain ⟨⟨l⟩, hl⟩ := s
    exact (List.perm_insertionSort _ l).nodup_iff.mpr hl
  mem_list s a := by
    obtain ⟨⟨l⟩, hl⟩ := s
    exact List.mem_insertionSort _

end RangeOrder

namespace GoMap

variable {α β γ σ ε : Type} [DecidableEq α]

/-- A lookup after an insertion. -/
theorem lookup_insert_eq_some {m : GoMap α β} {k k' : α} {b b' : β} :
    (m.insert k b).lookup k' = some b' ↔ k' = k ∧ b' = b ∨ k' ≠ k ∧ m.lookup k' = some b' := by
  by_cases hk : k' = k
  · subst hk
    rw [Finmap.lookup_insert]
    simp [eq_comm]
  · rw [Finmap.lookup_insert_of_ne _ hk]
    simp [hk]

/-- A lookup after the removal of a key. -/
theorem lookup_erase_eq_some {m : GoMap α β} {k k' : α} {b : β} :
    (m.erase k).lookup k' = some b ↔ k' ≠ k ∧ m.lookup k' = some b := by
  by_cases hk : k' = k
  · rw [hk, Finmap.lookup_erase]
    exact ⟨nofun, fun h => absurd rfl h.1⟩
  · rw [Finmap.lookup_erase_ne hk]
    exact ⟨fun h => ⟨hk, h⟩, fun h => h.2⟩

/-- `for key, value := range m { body }`, where the body may return an error
and so leave the loop. -/
def range (r : RangeOrder α) (m : GoMap α β) (init : σ) (body : σ → α → β → Except ε σ) :
    Except ε σ :=
  (r.list m.keys).foldlM (fun s k => match m.lookup k with
    | some b => body s k b
    | none => .ok s) init

/-- The same loop, with a body that always goes on. -/
def rangeFold (r : RangeOrder α) (m : GoMap α β) (init : σ) (body : σ → α → β → σ) : σ :=
  (r.list m.keys).foldl (fun s k => match m.lookup k with
    | some b => body s k b
    | none => s) init

/-- The keys a range order lists for a map are the keys of the map. -/
theorem mem_order (r : RangeOrder α) (m : GoMap α β) (k : α) :
    k ∈ r.list m.keys ↔ ∃ b, m.lookup k = some b := by
  rw [r.mem_list, Finmap.mem_keys, Finmap.mem_iff]

/-- **The invariant rule of a range loop.** What the body preserves, as the
keys already visited grow, holds at the end for all the keys of the map, and
the loop does not fail. -/
theorem range_induction (r : RangeOrder α) (m : GoMap α β) {init : σ}
    {body : σ → α → β → Except ε σ} {P : List α → σ → Prop} (h0 : P [] init)
    (hstep : ∀ done k b s, k ∉ done → m.lookup k = some b → P done s →
      ∃ s', body s k b = .ok s' ∧ P (done ++ [k]) s') :
    ∃ s', range r m init body = .ok s' ∧ P (r.list m.keys) s' := by
  have key : ∀ (todo done : List α) (s : σ), (done ++ todo).Nodup →
      (∀ k ∈ todo, ∃ b, m.lookup k = some b) → P done s →
      ∃ s', todo.foldlM (fun s k => match m.lookup k with
        | some b => body s k b
        | none => Except.ok s) s = .ok s' ∧ P (done ++ todo) s' := by
    intro todo
    induction todo with
    | nil =>
      intro done s _ _ hP
      exact ⟨s, rfl, by rwa [List.append_nil]⟩
    | cons k todo ih =>
      intro done s hnd hmem hP
      obtain ⟨b, hb⟩ := hmem k List.mem_cons_self
      have hk : k ∉ done := fun hd =>
        (List.nodup_append.mp hnd).2.2 k hd k List.mem_cons_self rfl
      obtain ⟨s₁, hs₁, hP₁⟩ := hstep done k b s hk hb hP
      obtain ⟨s', hs', hP'⟩ := ih (done ++ [k]) s₁ (by simpa using hnd)
        (fun k' hk' => hmem k' (List.mem_cons_of_mem _ hk')) hP₁
      refine ⟨s', ?_, by simpa using hP'⟩
      rw [List.foldlM_cons, hb]
      dsimp only
      rw [hs₁]
      exact hs'
  obtain ⟨s', hs', hP'⟩ := key (r.list m.keys) [] init (by simpa using r.nodup _)
    (fun k hk => (mem_order r m k).mp hk) h0
  exact ⟨s', hs', by simpa using hP'⟩

/-- A loop whose body never fails where it is run is a loop that always goes
on. -/
theorem range_eq_rangeFold (r : RangeOrder α) (m : GoMap α β) (init : σ)
    {body : σ → α → β → Except ε σ} {f : σ → α → β → σ}
    (h : ∀ s k b, m.lookup k = some b → body s k b = .ok (f s k b)) :
    range r m init body = .ok (rangeFold r m init f) := by
  unfold range rangeFold
  generalize r.list m.keys = l
  induction l generalizing init with
  | nil => rfl
  | cons k l ih =>
    rw [List.foldlM_cons, List.foldl_cons]
    cases hk : m.lookup k with
    | none => exact ih init
    | some b =>
      dsimp only
      rw [h init k b hk]
      exact ih _

/-- Where a loop does not fail, its body failed at no key. -/
theorem range_ok_body {r : RangeOrder α} {m : GoMap α β} {init s : σ}
    {body : σ → α → β → Except ε σ} (h : range r m init body = .ok s) (k : α) (b : β)
    (hk : m.lookup k = some b) : ∃ s₁ s₂, body s₁ k b = .ok s₂ := by
  have key : ∀ (l : List α) (init : σ), k ∈ l →
      l.foldlM (fun s k => match m.lookup k with
        | some b => body s k b
        | none => Except.ok s) init = .ok s → ∃ s₁ s₂, body s₁ k b = .ok s₂ := by
    intro l
    induction l with
    | nil => exact fun _ hmem => absurd hmem List.not_mem_nil
    | cons k' l ih =>
      intro init hmem hl
      rw [List.foldlM_cons] at hl
      by_cases hkk : k' = k
      · subst hkk
        rw [hk] at hl
        dsimp only at hl
        cases hb : body init k' b with
        | error err =>
          rw [hb] at hl
          cases hl
        | ok s' => exact ⟨init, s', hb⟩
      · have hrest : k ∈ l := (List.mem_cons.mp hmem).resolve_left (Ne.symm hkk)
        generalize (match m.lookup k' with
          | some b => body init k' b
          | none => Except.ok init) = first at hl
        cases first with
        | error err => cases hl
        | ok s' => exact ih s' hrest hl
  exact key _ init ((mem_order r m k).mpr ⟨b, hk⟩) h

/-- The invariant rule for a loop that always goes on. -/
theorem rangeFold_induction (r : RangeOrder α) (m : GoMap α β) {init : σ}
    {body : σ → α → β → σ} {P : List α → σ → Prop} (h0 : P [] init)
    (hstep : ∀ done k b s, k ∉ done → m.lookup k = some b → P done s →
      P (done ++ [k]) (body s k b)) :
    P (r.list m.keys) (rangeFold r m init body) := by
  have hloop : ∃ s', (range r m init (fun s k b => .ok (body s k b)) : Except Unit σ) = .ok s' ∧
      P (r.list m.keys) s' := range_induction r m h0
    (fun done k b s hk hb hP => ⟨body s k b, rfl, hstep done k b s hk hb hP⟩)
  obtain ⟨s', hs', hP'⟩ := hloop
  rw [range_eq_rangeFold r m init (fun s k b _ => rfl)] at hs'
  rwa [Except.ok.inj hs']

/-- A loop that collects the keys it selects collects each of them once. -/
theorem rangeFold_collect (r : RangeOrder α) (m : GoMap α β) (p : α → β → Bool) :
    (rangeFold r m [] (fun keys k b => if p k b then keys ++ [k] else keys)).Nodup
      ∧ ∀ k, k ∈ rangeFold r m [] (fun keys k b => if p k b then keys ++ [k] else keys)
          ↔ ∃ b, m.lookup k = some b ∧ p k b = true := by
  suffices h : (rangeFold r m [] (fun keys k b => if p k b then keys ++ [k] else keys)).Nodup
      ∧ ∀ k, k ∈ rangeFold r m [] (fun keys k b => if p k b then keys ++ [k] else keys)
        ↔ k ∈ r.list m.keys ∧ ∃ b, m.lookup k = some b ∧ p k b = true by
    refine ⟨h.1, fun k => ?_⟩
    rw [h.2, mem_order]
    exact ⟨fun hr => hr.2, fun ⟨b, hb, hp⟩ => ⟨⟨b, hb⟩, b, hb, hp⟩⟩
  refine rangeFold_induction r m (P := fun done (keys : List α) => keys.Nodup
    ∧ ∀ k, k ∈ keys ↔ k ∈ done ∧ ∃ b, m.lookup k = some b ∧ p k b = true)
    ⟨List.nodup_nil, fun k => by simp⟩ (fun done k b keys hk hb hP => ?_)
  · obtain ⟨hnd, hmem⟩ := hP
    cases hp : p k b with
    | false =>
      refine ⟨by simpa [hp] using hnd, fun k' => ?_⟩
      rw [if_neg (by simp), hmem, List.mem_append, List.mem_singleton]
      refine and_congr_left (fun ⟨b', hb', hp'⟩ => ⟨Or.inl, fun hr => hr.resolve_right ?_⟩)
      rintro rfl
      rw [hb] at hb'
      cases hb'
      rw [hp] at hp'
      exact Bool.noConfusion hp'
    | true =>
      have hout : k ∉ keys := fun hin => hk ((hmem k).mp hin).1
      rw [if_pos rfl]
      refine ⟨?_, fun k' => ?_⟩
      · rw [List.nodup_append]
        exact ⟨hnd, List.nodup_singleton k, fun a ha b' hb' hab =>
          hout (by rw [← List.mem_singleton.mp hb', ← hab]; exact ha)⟩
      · rw [List.mem_append, List.mem_singleton, hmem, List.mem_append, List.mem_singleton]
        constructor
        · rintro (hr | rfl)
          · exact ⟨Or.inl hr.1, hr.2⟩
          · exact ⟨Or.inr rfl, b, hb, hp⟩
        · rintro ⟨hr | hr, hrest⟩
          · exact Or.inl ⟨hr, hrest⟩
          · exact Or.inr hr

/-- **A loop that only touches the key it visits is read key by key.** If the
body changes a map under construction at the visited key alone, there as `f`
says, the result at a key depends on nothing but the values at that key –
whatever the order of the visits. -/
theorem lookup_rangeFold (r : RangeOrder α) (m : GoMap α β) (init : GoMap α γ)
    {body : GoMap α γ → α → β → GoMap α γ} {f : α → β → Option γ → Option γ}
    (hself : ∀ s k b, (body s k b).lookup k = f k b (s.lookup k))
    (hne : ∀ s k b k', k' ≠ k → (body s k b).lookup k' = s.lookup k') (k : α) :
    (rangeFold r m init body).lookup k
      = match m.lookup k with
        | some b => f k b (init.lookup k)
        | none => init.lookup k := by
  have h : ∀ k, (rangeFold r m init body).lookup k
      = if k ∈ r.list m.keys then (match m.lookup k with
          | some b => f k b (init.lookup k)
          | none => init.lookup k)
        else init.lookup k :=
    rangeFold_induction r m (P := fun done (s : GoMap α γ) => ∀ k, s.lookup k
      = if k ∈ done then (match m.lookup k with
          | some b => f k b (init.lookup k)
          | none => init.lookup k)
        else init.lookup k)
    (fun k => by simp)
    (fun done k b s hk hb hP k' => by
      by_cases hkk : k' = k
      · subst hkk
        rw [hself, hP k', if_neg hk, if_pos (by simp), hb]
      · rw [hne s k b k' hkk, hP k']
        simp [hkk])
  rw [h k]
  by_cases hk : k ∈ r.list m.keys
  · rw [if_pos hk]
  · rw [if_neg hk]
    cases hm : m.lookup k with
    | none => rfl
    | some b => exact absurd ((mem_order r m k).mpr ⟨b, hm⟩) hk

end GoMap
