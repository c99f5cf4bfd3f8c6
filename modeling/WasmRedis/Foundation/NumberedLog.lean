import Mathlib

/-!
# Logs of numbered operations

A log that is written in batches, each retried until it is acknowledged, holds
some operations several times. If the operations are numbered in the order in
which they were issued, a replay can tell: it passes over every number it has
reached, applies the next one, and refuses a gap.

`replay` is that loop, over any state and any operations. What makes it robust
is `replay_batch`: appending to a log any prefix of a batch that starts no
later than where the replay of the log ends adds exactly the operations that
were missing, whatever part of the batch the log already held.
-/

namespace NumberedLog

variable {σ ω ε : Type}

/-- Why a replay is refused. -/
inductive Fault (ε : Type) where
  /-- An operation has the number `0`. -/
  | zero
  /-- A number is missing. -/
  | gap
  /-- An operation cannot be applied. -/
  | apply (err : ε)

/-- Replay a log over a state in which the operations up to a number are
included; the result includes those up to the number returned. -/
def replay (num : ω → ℕ) (apply : σ → ω → Except ε σ) :
    List ω → σ → ℕ → Except (Fault ε) (σ × ℕ)
  | [], s, n => .ok (s, n)
  | op :: ops, s, n =>
    if num op = 0 then .error .zero
    else if num op ≤ n then replay num apply ops s n
    else if num op ≠ n + 1 then .error .gap
    else
      match apply s op with
      | .error err => .error (.apply err)
      | .ok s => replay num apply ops s (num op)

/-- The operations are numbered one by one from `n + 1` on. -/
def Numbered (num : ω → ℕ) (n : ℕ) : List ω → Prop
  | [] => True
  | op :: ops => num op = n + 1 ∧ Numbered num (n + 1) ops

variable {num : ω → ℕ} {apply : σ → ω → Except ε σ}

theorem numbered_append {n : ℕ} {ops ops' : List ω} :
    Numbered num n (ops ++ ops') ↔ Numbered num n ops ∧ Numbered num (n + ops.length) ops' := by
  induction ops generalizing n with
  | nil => exact iff_of_eq (true_and _).symm
  | cons op ops ih =>
    show _ ∧ Numbered num _ (ops ++ ops') ↔ (_ ∧ _) ∧ _
    rw [ih, and_assoc, List.length_cons, Nat.add_right_comm, Nat.add_assoc]

theorem numbered_map {f : ω → ω} {n : ℕ} {ops : List ω} :
    Numbered num n (ops.map f) ↔ Numbered (num ∘ f) n ops := by
  induction ops generalizing n with
  | nil => rfl
  | cons op ops ih => exact and_congr_right' ih

theorem Numbered.take {n : ℕ} {ops : List ω} (h : Numbered num n ops) (i : ℕ) :
    Numbered num n (ops.take i) := by
  rw [← List.take_append_drop i ops] at h
  exact (numbered_append.mp h).1

theorem Numbered.drop {n : ℕ} {ops : List ω} (h : Numbered num n ops) {i : ℕ}
    (hi : i ≤ ops.length) : Numbered num (n + i) (ops.drop i) := by
  rw [← List.take_append_drop i ops] at h
  have hd := (numbered_append.mp h).2
  rwa [List.length_take, Nat.min_eq_left hi] at hd

/-- The replay of a log goes on where the replay of its beginning ended. -/
theorem replay_append {ops ops' : List ω} {s : σ} {n : ℕ} :
    replay num apply (ops ++ ops') s n
      = match replay num apply ops s n with
        | .error err => .error err
        | .ok (s', n') => replay num apply ops' s' n' := by
  induction ops generalizing s n with
  | nil => rfl
  | cons op ops ih =>
    simp only [List.cons_append, replay]
    split_ifs
    · rfl
    · exact ih
    · rfl
    · cases apply s op with
      | error err => rfl
      | ok s' => exact ih

/-- **What a replay has checked**: every number is positive and at most the
number reached, which is at least where the replay started. -/
theorem replay_bound {ops : List ω} {s s' : σ} {n n' : ℕ}
    (h : replay num apply ops s n = .ok (s', n')) :
    n ≤ n' ∧ ∀ op ∈ ops, 0 < num op ∧ num op ≤ n' := by
  induction ops generalizing s n with
  | nil =>
    cases h
    exact ⟨le_rfl, fun _ hop => absurd hop List.not_mem_nil⟩
  | cons op ops ih =>
    simp only [replay] at h
    split_ifs at h with h0 h1 h2
    · obtain ⟨hn, hall⟩ := ih h
      refine ⟨hn, fun op' hop' => ?_⟩
      rcases List.mem_cons.mp hop' with rfl | hop'
      · exact ⟨Nat.pos_of_ne_zero h0, h1.trans hn⟩
      · exact hall op' hop'
    · cases hs : apply s op with
      | error err =>
        rw [hs] at h
        cases h
      | ok s₁ =>
        rw [hs] at h
        obtain ⟨hn, hall⟩ := ih h
        refine ⟨by omega, fun op' hop' => ?_⟩
        rcases List.mem_cons.mp hop' with rfl | hop'
        · exact ⟨Nat.pos_of_ne_zero h0, hn⟩
        · exact hall op' hop'

/-- A log whose operations are all included already changes nothing. -/
theorem replay_included {ops : List ω} {s : σ} {n : ℕ}
    (h : ∀ op ∈ ops, 0 < num op ∧ num op ≤ n) : replay num apply ops s n = .ok (s, n) := by
  induction ops with
  | nil => rfl
  | cons op ops ih =>
    obtain ⟨hpos, hle⟩ := h op List.mem_cons_self
    simp only [replay]
    rw [if_neg hpos.ne', if_pos hle]
    exact ih (fun op' hop' => h op' (List.mem_cons_of_mem _ hop'))

/-! ## First occurrences -/

/-- The operations numbered above `n`, each at its first occurrence only. -/
def firsts (num : ω → ℕ) (n : ℕ) : List ω → List ω
  | [] => []
  | op :: ops =>
    if n < num op then op :: (firsts num n ops).filter (fun op' => num op' ≠ num op)
    else firsts num n ops

theorem lt_of_mem_firsts {n : ℕ} {ops : List ω} {op : ω} (h : op ∈ firsts num n ops) :
    n < num op := by
  induction ops with
  | nil => exact absurd h List.not_mem_nil
  | cons op' ops ih =>
    unfold firsts at h
    split_ifs at h with hn
    · rcases List.mem_cons.mp h with rfl | h
      · exact hn
      · exact ih (List.mem_of_mem_filter h)
    · exact ih h

/-- No number above `n` is lost with the later occurrences. -/
theorem exists_mem_firsts {n m : ℕ} {ops : List ω} (hm : n < m) :
    (∃ op ∈ firsts num n ops, num op = m) ↔ ∃ op ∈ ops, num op = m := by
  induction ops with
  | nil => rfl
  | cons op ops ih =>
    unfold firsts
    by_cases hop : num op = m
    · rw [if_pos (hop ▸ hm)]
      exact iff_of_true ⟨op, List.mem_cons_self, hop⟩ ⟨op, List.mem_cons_self, hop⟩
    · rw [List.exists_mem_cons_iff, or_iff_right hop, ← ih]
      split_ifs with hn
      · rw [List.exists_mem_cons_iff, or_iff_right hop]
        refine exists_congr fun op' => and_congr_left fun hm' => ?_
        rw [List.mem_filter, decide_eq_true_eq, hm']
        exact and_iff_left (Ne.symm hop)
      · rfl

/-- Past the next number, the operation that has it is one fewer. -/
theorem firsts_succ {n : ℕ} {ops : List ω} :
    firsts num (n + 1) ops = (firsts num n ops).filter (fun op => num op ≠ n + 1) := by
  induction ops with
  | nil => rfl
  | cons op ops ih =>
    unfold firsts
    rcases Nat.lt_trichotomy (num op) (n + 1) with hlt | heq | hgt
    · rw [if_neg (by omega), if_neg (by omega), ih]
    · rw [if_neg (by omega), if_pos (by omega), ih, heq, List.filter_cons_of_neg (by simp [heq]),
        List.filter_filter]
      simp only [Bool.and_self]
    · rw [if_pos hgt, if_pos (by omega), ih, List.filter_cons_of_pos (by simp; omega),
        List.filter_comm]

theorem firsts_cons_next {n : ℕ} {op : ω} {ops : List ω} (h : num op = n + 1) :
    firsts num n (op :: ops) = op :: firsts num (n + 1) ops := by
  rw [firsts_succ]
  conv_lhs => unfold firsts
  rw [if_pos (by omega), h]

/-- **What a replay accepts.** It applies, in order, the first occurrences of
the numbers above the one it starts from; these have to follow each other
without a gap. -/
theorem replay_ok_iff {ops : List ω} {s s' : σ} {n n' : ℕ} :
    replay num apply ops s n = .ok (s', n') ↔
      (∀ op ∈ ops, num op ≠ 0) ∧ Numbered num n (firsts num n ops)
        ∧ (firsts num n ops).foldlM apply s = .ok s' ∧ n' = n + (firsts num n ops).length := by
  induction ops generalizing s n with
  | nil =>
    refine ⟨fun h => ?_, fun ⟨_, _, hs, hn⟩ => ?_⟩
    · cases h
      exact ⟨fun _ hop => absurd hop List.not_mem_nil, trivial, rfl, rfl⟩
    · cases hs
      rw [hn]
      rfl
  | cons op ops ih =>
    rw [List.forall_mem_cons]
    unfold replay
    by_cases h0 : num op = 0
    · rw [if_pos h0]
      exact ⟨nofun, fun h => absurd h0 h.1.1⟩
    rw [if_neg h0, and_iff_right h0]
    by_cases hle : num op ≤ n
    · rw [if_pos hle, ih]
      conv_rhs => unfold firsts
      rw [if_neg (not_lt.mpr hle)]
    rw [if_neg hle]
    by_cases hnext : num op = n + 1
    · rw [if_neg (not_not.mpr hnext), firsts_cons_next hnext, List.foldlM_cons, List.length_cons,
        Numbered, and_iff_right hnext]
      cases apply s op with
      | error err => exact ⟨nofun, fun ⟨_, _, h, _⟩ => nomatch h⟩
      | ok s₁ =>
        dsimp only
        rw [hnext, ih, Nat.add_right_comm, Nat.add_assoc]
        rfl
    · rw [if_pos hnext]
      refine ⟨nofun, fun h => ?_⟩
      unfold firsts at h
      rw [if_pos (not_le.mp hle)] at h
      exact absurd h.2.1.1 hnext

theorem exists_mem_of_numbered {n m : ℕ} {ops : List ω} (h : Numbered num n ops) (hm : n < m) :
    (∃ op ∈ ops, num op = m) ↔ m ≤ n + ops.length := by
  induction ops generalizing n with
  | nil => exact iff_of_false (fun ⟨_, hop, _⟩ => List.not_mem_nil hop) (not_le.mpr hm)
  | cons op ops ih =>
    obtain ⟨hop, hrest⟩ := h
    rw [List.exists_mem_cons_iff, List.length_cons, hop]
    obtain heq | hlt := eq_or_lt_of_le (Nat.succ_le_of_lt hm)
    · exact iff_of_true (Or.inl heq) (by omega)
    · rw [or_iff_right (ne_of_lt hlt), ih hrest hlt, Nat.add_right_comm, Nat.add_assoc]

/-- **Numbered without a gap**: in increasing order, and with a number all
those below it. -/
theorem numbered_iff {n : ℕ} {ops : List ω} :
    Numbered num n ops ↔ (∀ op ∈ ops, n < num op) ∧ ops.Pairwise (fun op op' => num op < num op')
      ∧ ∀ op ∈ ops, ∀ m, n < m → m ≤ num op → ∃ op' ∈ ops, num op' = m := by
  induction ops generalizing n with
  | nil => simp [Numbered]
  | cons op ops ih =>
    rw [List.pairwise_cons, Numbered, ih]
    constructor
    · rintro ⟨hop, habove, hlt, hgap⟩
      refine ⟨fun op' hop' => ?_, ⟨fun op' hop' => hop ▸ habove op' hop', hlt⟩,
        fun op' hop' m hm hle => ?_⟩
      · rcases List.mem_cons.mp hop' with rfl | hop'
        · omega
        · exact Nat.lt_of_succ_lt (habove op' hop')
      · obtain heq | hm := eq_or_lt_of_le (Nat.succ_le_of_lt hm)
        · exact ⟨op, List.mem_cons_self, hop.trans heq⟩
        · rcases List.mem_cons.mp hop' with rfl | hop'
          · omega
          · obtain ⟨op'', hop'', hm''⟩ := hgap op' hop' m hm hle
            exact ⟨op'', List.mem_cons_of_mem _ hop'', hm''⟩
    · rintro ⟨habove, ⟨hfirst, hlt⟩, hgap⟩
      -- The first is the smallest, so it has the number after `n`.
      have hop : num op = n + 1 := by
        have hn := habove op List.mem_cons_self
        obtain ⟨op', hop', hnum⟩ := hgap op List.mem_cons_self (n + 1) (Nat.lt_succ_self n) hn
        rcases List.mem_cons.mp hop' with rfl | hop'
        · exact hnum
        · have := hfirst op' hop'
          omega
      refine ⟨hop, fun op' hop' => hop ▸ hfirst op' hop', hlt, fun op' hop' m hm hle => ?_⟩
      obtain ⟨op'', hop'', hm''⟩ := hgap op' (List.mem_cons_of_mem _ hop') m (by omega) hle
      rcases List.mem_cons.mp hop'' with rfl | hop''
      · omega
      · exact ⟨op'', hop'', hm''⟩

/-! ## Batches -/

/-- Of a batch numbered from `q + 1` on, those above `n` come after `n - q`. -/
theorem firsts_numbered {ops : List ω} {q n : ℕ} (hnum : Numbered num q ops) (hq : q ≤ n) :
    firsts num n ops = ops.drop (n - q) := by
  induction ops generalizing q n with
  | nil => exact List.drop_nil.symm
  | cons op ops ih =>
    obtain ⟨hop, hrest⟩ := hnum
    obtain rfl | hlt := hq.eq_or_lt
    · rw [firsts_cons_next hop, ih hrest le_rfl, Nat.sub_self, Nat.sub_self, List.drop_zero,
        List.drop_zero]
    · rw [firsts, if_neg (by omega), ih hrest hlt, show n - q = n - (q + 1) + 1 by omega,
        List.drop_succ_cons]

theorem Numbered.ne_zero {ops : List ω} {q : ℕ} (h : Numbered num q ops) :
    ∀ op ∈ ops, num op ≠ 0 := fun op hop =>
  Nat.ne_zero_of_lt ((numbered_iff.mp h).1 op hop)

/-- **A batch adds what was missing.** A batch numbered from `q + 1` on,
replayed from a number `n` that is at least `q`, is passed over up to `n` and
applied from there. -/
theorem replay_batch_iff {ops : List ω} {s s' : σ} {q n n' : ℕ} (hnum : Numbered num q ops)
    (hq : q ≤ n) :
    replay num apply ops s n = .ok (s', n') ↔
      (firsts num n ops).foldlM apply s = .ok s' ∧ n' = max n (q + ops.length) := by
  have hnext : Numbered num n (firsts num n ops) := by
    rw [firsts_numbered hnum hq]
    obtain hle | hle := Nat.le_total (n - q) ops.length
    · have hd := hnum.drop hle
      rwa [Nat.add_sub_cancel' hq] at hd
    · rw [List.drop_of_length_le hle]
      trivial
  have hlen : n + (firsts num n ops).length = max n (q + ops.length) := by
    rw [firsts_numbered hnum hq, List.length_drop]
    omega
  rw [replay_ok_iff, hlen, and_iff_right hnum.ne_zero, and_iff_right hnext]

theorem replay_batch {ops : List ω} {s s' : σ} {q n : ℕ} (hnum : Numbered num q ops)
    (hq : q ≤ n) (happly : (ops.drop (n - q)).foldlM apply s = .ok s') :
    replay num apply ops s n = .ok (s', max n (q + ops.length)) := by
  rw [← firsts_numbered hnum hq] at happly
  exact (replay_batch_iff hnum hq).mpr ⟨happly, rfl⟩

/-- **A retried batch**, in the terms of the operations issued: of `ops`,
numbered from `q + 1` on, the log includes the first `n`, and some of those from
the `f`-th on are appended again. The replay goes on to the last one appended,
or stays where it was. -/
theorem replay_retry {ops : List ω} {s s' : σ} {q f n r : ℕ} (hnum : Numbered num q ops)
    (hf : f ≤ n) (hn : n ≤ ops.length)
    (happly : ((ops.take (f + r)).drop n).foldlM apply s = .ok s') :
    replay num apply ((ops.drop f).take r) s (q + n)
      = .ok (s', q + max n (min (f + r) ops.length)) := by
  have hdrop : ((ops.drop f).take r).drop (q + n - (q + f)) = (ops.take (f + r)).drop n := by
    rw [List.take_drop, List.drop_drop]
    congr 1
    omega
  rw [replay_batch ((hnum.drop (hf.trans hn)).take r) (by omega) (by rw [hdrop]; exact happly),
    List.length_take, List.length_drop]
  congr 2
  omega

/-- What a retried batch has added to the first `n` operations issued. -/
theorem take_append_drop_take (ops : List ω) {n : ℕ} (i : ℕ) (hn : n ≤ ops.length) :
    ops.take n ++ (ops.take i).drop n = ops.take (max n (min i ops.length)) := by
  obtain h | h := Nat.le_total i n
  · rw [List.drop_of_length_le ((List.length_take_le i ops).trans h), List.append_nil]
    congr 1
    omega
  · have htake : ops.take n = (ops.take i).take n := by
      rw [List.take_take, Nat.min_eq_left h]
    rw [htake, List.take_append_drop, List.take_eq_take_min]
    congr 1
    omega

/-- A batch is refused from below the number before its first. -/
theorem le_of_replay {op : ω} {ops : List ω} {s : σ} {q n : ℕ} {r : σ × ℕ}
    (hop : num op = q + 1) (h : replay num apply (op :: ops) s n = .ok r) : q ≤ n := by
  unfold replay at h
  split_ifs at h with h0 hle hgap
  · omega
  · omega

/-- In a batch, every operation is at its first occurrence. -/
theorem mem_firsts {ops : List ω} {q n : ℕ} (hnum : Numbered num q ops) {op : ω} :
    op ∈ firsts num n ops ↔ op ∈ ops ∧ n < num op := by
  have hfilter : firsts num n ops = ops.filter (fun op => n < num op) := by
    induction ops generalizing q with
    | nil => rfl
    | cons op ops ih =>
      obtain ⟨hop, hrest⟩ := hnum
      rw [firsts, ih hrest]
      split_ifs with hn
      · rw [List.filter_cons, if_pos (decide_eq_true hn), List.filter_eq_self.mpr]
        intro op' hop'
        have hlt := (numbered_iff.mp hrest).1 op' (List.mem_of_mem_filter hop')
        exact decide_eq_true (by omega)
      · rw [List.filter_cons, if_neg (by simpa using hn)]
  rw [hfilter, List.mem_filter, decide_eq_true_eq]

/-- Of a batch, the operation that has the next number is applied first. -/
theorem firsts_eq_cons {ops : List ω} {q n : ℕ} (hnum : Numbered num q ops) (hq : q ≤ n)
    {op : ω} (hmem : op ∈ ops) (hop : num op = n + 1) :
    firsts num n ops = op :: firsts num (n + 1) ops := by
  induction ops generalizing q with
  | nil => exact absurd hmem List.not_mem_nil
  | cons op' ops ih =>
    obtain ⟨hop', hrest⟩ := hnum
    have hpass : firsts num (n + 1) (op' :: ops) = firsts num (n + 1) ops := by
      rw [firsts, if_neg (by omega)]
    rw [hpass]
    obtain rfl | hlt := hq.eq_or_lt
    · rw [firsts_cons_next hop']
      rcases List.mem_cons.mp hmem with rfl | hmem
      · rfl
      · have := (numbered_iff.mp hrest).1 op hmem
        omega
    · have hmem' : op ∈ ops := by
        rcases List.mem_cons.mp hmem with rfl | hmem
        · omega
        · exact hmem
      rw [firsts, if_neg (by omega), ih hrest hlt hmem']

end NumberedLog
