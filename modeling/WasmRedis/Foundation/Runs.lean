import Mathlib

/-!
# Runs of a system

A system answers events, one at a time: in a state it admits some events, and
an admitted event gives an answer and a next state. A run is a list of events
each of which is admitted where it occurs.

Nine rules are what proofs about runs use. `Admits.invariant` says that what
every step preserves holds after the run, and `Admits.induction` is the induction
behind it, for what depends on all that has happened; `Admits.countP_le` bounds how
often something can happen. `Throughout.invariant` is its form for
runs each of whose events meets a condition, on the state in which it occurs and
on its answer; `Admits.isChain_observed` is its form for the history of what is
observed of the states, and `Admits.observed_eq_collected` for a state that records its
own history. `Admits.pairwise_collected` says in what order things are collected.
`simulation` compares two systems that take the same events: if a relation between
their states is preserved and makes them give the same answers, they answer whole
runs alike; `simulation_omit` says when an event of a run makes no difference to
the others.
-/

/-- A system that answers events. -/
structure System (σ ε α : Type) where
  /-- Which events may occur in a state. -/
  admits : σ → ε → Prop
  /-- The answer to an event, and the next state. -/
  step : σ → ε → α × σ

namespace System

variable {σ τ ε α β : Type}

/-- The state after a list of events. -/
def after (S : System σ ε α) : σ → List ε → σ
  | s, [] => s
  | s, e :: es => S.after (S.step s e).2 es

/-- The answers to a list of events. -/
def answers (S : System σ ε α) : σ → List ε → List α
  | _, [] => []
  | s, e :: es => (S.step s e).1 :: S.answers (S.step s e).2 es

/-- The answer to the event that follows a list of events. -/
def answer (S : System σ ε α) (s : σ) (es : List ε) (e : ε) : α := (S.step (S.after s es) e).1

/-- Every event of the list is admitted where it occurs. -/
def Admits (S : System σ ε α) : σ → List ε → Prop
  | _, [] => True
  | s, e :: es => S.admits s e ∧ S.Admits (S.step s e).2 es

/-- Every event of the list meets a condition, in the state in which it occurs
and with the answer it gets. -/
def Throughout (S : System σ ε α) (P : σ → ε → α → Prop) : σ → List ε → Prop
  | _, [] => True
  | s, e :: es => P s e (S.step s e).1 ∧ S.Throughout P (S.step s e).2 es

/-- What is observed of the states of a run, from the first to the last. -/
def observed (S : System σ ε α) (obs : σ → β) : σ → List ε → List β
  | s, [] => [obs s]
  | s, e :: es => obs s :: S.observed obs (S.step s e).2 es

/-- What is collected of the events of a run and of their answers. -/
def collected (S : System σ ε α) (f : ε → α → List β) : σ → List ε → List β
  | _, [] => []
  | s, e :: es => f e (S.step s e).1 ++ S.collected f (S.step s e).2 es

theorem after_append (S : System σ ε α) (s : σ) (es fs : List ε) :
    S.after s (es ++ fs) = S.after (S.after s es) fs := by
  induction es generalizing s with
  | nil => rfl
  | cons e es ih => exact ih _

theorem after_concat (S : System σ ε α) (s : σ) (es : List ε) (e : ε) :
    S.after s (es ++ [e]) = (S.step (S.after s es) e).2 :=
  S.after_append s es [e]

theorem admits_append (S : System σ ε α) (s : σ) (es fs : List ε) :
    S.Admits s (es ++ fs) ↔ S.Admits s es ∧ S.Admits (S.after s es) fs := by
  induction es generalizing s with
  | nil => exact iff_of_eq (true_and _).symm
  | cons e es ih =>
    show _ ∧ S.Admits _ (es ++ fs) ↔ (_ ∧ _) ∧ _
    rw [ih, and_assoc]
    rfl

theorem answers_append (S : System σ ε α) (s : σ) (es fs : List ε) :
    S.answers s (es ++ fs) = S.answers s es ++ S.answers (S.after s es) fs := by
  induction es generalizing s with
  | nil => rfl
  | cons e es ih => exact congrArg (List.cons _) (ih _)

/-- A system that admits every event. -/
theorem admits_of_forall {S : System σ ε α} (h : ∀ s e, S.admits s e) (s : σ) (es : List ε) :
    S.Admits s es := by
  induction es generalizing s with
  | nil => trivial
  | cons e es ih => exact ⟨h s e, ih _⟩

theorem throughout_append (S : System σ ε α) (P : σ → ε → α → Prop) (s : σ) (es fs : List ε) :
    S.Throughout P s (es ++ fs) ↔ S.Throughout P s es ∧ S.Throughout P (S.after s es) fs := by
  induction es generalizing s with
  | nil => exact iff_of_eq (true_and _).symm
  | cons e es ih =>
    show _ ∧ S.Throughout P _ (es ++ fs) ↔ (_ ∧ _) ∧ _
    rw [ih, and_assoc]
    rfl

theorem Throughout.and {S : System σ ε α} {P Q : σ → ε → α → Prop} {s : σ} {es : List ε}
    (hP : S.Throughout P s es) (hQ : S.Throughout Q s es) :
    S.Throughout (fun s e a => P s e a ∧ Q s e a) s es := by
  induction es generalizing s with
  | nil => trivial
  | cons e es ih => exact ⟨⟨hP.1, hQ.1⟩, ih hP.2 hQ.2⟩

/-- **The invariant rule.** -/
theorem Admits.invariant {S : System σ ε α} {I : σ → Prop} {s : σ} {es : List ε}
    (h : S.Admits s es) (h0 : I s)
    (hstep : ∀ s e, S.admits s e → I s → I (S.step s e).2) : I (S.after s es) := by
  induction es generalizing s with
  | nil => exact h0
  | cons e es ih => exact ih h.2 (hstep s e h.1 h0)

/-- **The history rule for whatever has happened.** A property of the events of a run
holds of all of them if it is kept by the next. -/
theorem Admits.induction {S : System σ ε α} {s : σ} {P : List ε → Prop} {es : List ε}
    (h : S.Admits s es) (h0 : P [])
    (hstep : ∀ es e, S.Admits s es → S.admits (S.after s es) e → P es → P (es ++ [e])) : P es := by
  induction es using List.reverseRecOn with
  | nil => exact h0
  | append_singleton es e ih =>
    obtain ⟨hbefore, hlast, _⟩ := (S.admits_append s es [e]).mp h
    exact hstep es e hbefore hlast (ih hbefore)

/-- **The potential rule.** If some of the events lower a potential, and none raises it,
there are at most as many of them as it was high. -/
theorem Admits.countP_le {S : System σ ε α} {counts : ε → Bool} (potential : σ → ℕ) {s : σ}
    {es : List ε} (h : S.Admits s es)
    (hstep : ∀ s e, S.admits s e →
      potential (S.step s e).2 + (if counts e then 1 else 0) ≤ potential s) :
    potential (S.after s es) + es.countP counts ≤ potential s := by
  induction es generalizing s with
  | nil => exact le_rfl
  | cons e es ih =>
    have hfirst := hstep s e h.1
    have hrest := ih h.2
    rw [List.countP_cons]
    show potential (S.after (S.step s e).2 es) + _ ≤ _
    omega

/-- **The invariant rule with a condition.** The step may use the condition of
the event that occurs. -/
theorem Throughout.invariant {S : System σ ε α} {P : σ → ε → α → Prop} {I : σ → Prop}
    {s : σ} {es : List ε} (h : S.Admits s es) (hP : S.Throughout P s es) (h0 : I s)
    (hstep : ∀ s e, S.admits s e → P s e (S.step s e).1 → I s → I (S.step s e).2) :
    I (S.after s es) := by
  induction es generalizing s with
  | nil => exact h0
  | cons e es ih => exact ih h.2 hP.2 (hstep s e h.1 hP.1 h0)

/-- **The history rule.** If every step from a state that satisfies an invariant
moves what is observed as a relation allows, the history of a run is a path of
the relation. -/
theorem Admits.isChain_observed {S : System σ ε α} {obs : σ → β} {Moves : β → β → Prop}
    {I : σ → Prop} {s : σ} {es : List ε} (h : S.Admits s es) (h0 : I s)
    (hinv : ∀ s e, S.admits s e → I s → I (S.step s e).2)
    (hstep : ∀ s e, S.admits s e → I s → Moves (obs s) (obs (S.step s e).2)) :
    (S.observed obs s es).IsChain Moves := by
  induction es generalizing s with
  | nil => exact List.isChain_singleton _
  | cons e es ih =>
    have hrest := ih h.2 (hinv s e h.1 h0)
    have hmove := hstep s e h.1 h0
    cases es with
    | nil => exact List.isChain_pair.mpr hmove
    | cons e' es => exact List.isChain_cons_cons.mpr ⟨hmove, hrest⟩

/-- **The collection rule.** If every step from a state that satisfies an invariant adds
to what is observed what is collected of it, the last state shows all that was collected
over the run. -/
theorem Admits.observed_eq_collected {S : System σ ε α} {obs : σ → List β} {f : ε → α → List β}
    {I : σ → Prop} {s : σ} {es : List ε} (h : S.Admits s es) (h0 : I s)
    (hinv : ∀ s e, S.admits s e → I s → I (S.step s e).2)
    (hstep : ∀ s e, S.admits s e → I s → obs (S.step s e).2 = obs s ++ f e (S.step s e).1) :
    obs (S.after s es) = obs s ++ S.collected f s es := by
  induction es generalizing s with
  | nil => exact (List.append_nil _).symm
  | cons e es ih =>
    refine (ih h.2 (hinv s e h.1 h0)).trans ?_
    rw [hstep s e h.1 h0, List.append_assoc]
    rfl

/-- **The order rule.** Suppose that what is collected is past afterwards, and that all
that is collected while something is past comes after it. Then what is collected over the
run is in order. -/
theorem Admits.pairwise_collected {S : System σ ε α} {f : ε → α → List β} {I : σ → Prop}
    {Past : β → σ → Prop} {Before : β → β → Prop} {s : σ} {es : List ε} (h : S.Admits s es)
    (h0 : I s) (hinv : ∀ s e, S.admits s e → I s → I (S.step s e).2)
    (hnew : ∀ s e, S.admits s e → I s → (f e (S.step s e).1).Pairwise Before
      ∧ ∀ b ∈ f e (S.step s e).1, Past b (S.step s e).2)
    (hpast : ∀ b s e, S.admits s e → I s → Past b s → Past b (S.step s e).2
      ∧ ∀ b' ∈ f e (S.step s e).1, Before b b') :
    (S.collected f s es).Pairwise Before
      ∧ ∀ b, Past b s → ∀ b' ∈ S.collected f s es, Before b b' := by
  induction es generalizing s with
  | nil => exact ⟨List.Pairwise.nil, fun _ _ _ hmem => absurd hmem List.not_mem_nil⟩
  | cons e es ih =>
    obtain ⟨hpairwise, hafter⟩ := ih h.2 (hinv s e h.1 h0)
    obtain ⟨hnow, hnext⟩ := hnew s e h.1 h0
    constructor
    · exact List.pairwise_append.mpr
        ⟨hnow, hpairwise, fun b hb b' hb' => hafter b (hnext b hb) b' hb'⟩
    · intro b hb b' hb'
      obtain ⟨hstill, hbefore⟩ := hpast b s e h.1 h0 hb
      rcases List.mem_append.mp hb' with hb' | hb'
      · exact hbefore b' hb'
      · exact hafter b hstill b' hb'

/-- **The simulation rule.** If a system, as far as its answers are observed,
answers each event as another does, and the two stay related, it answers whole
runs as the other does. -/
theorem simulation {S : System σ ε α} {T : System τ ε β} (obs : ε → α → β) (Rel : σ → τ → Prop)
    {s : σ} {t : τ} {es : List ε} (h : S.Admits s es) (h0 : Rel s t)
    (hstep : ∀ s t e, S.admits s e → Rel s t →
      obs e (S.step s e).1 = (T.step t e).1 ∧ Rel (S.step s e).2 (T.step t e).2) :
    List.zipWith obs es (S.answers s es) = T.answers t es ∧ Rel (S.after s es) (T.after t es) := by
  induction es generalizing s t with
  | nil => exact ⟨rfl, h0⟩
  | cons e es ih =>
    obtain ⟨hans, hrel⟩ := hstep s t e h.1 h0
    obtain ⟨hrest, hfinal⟩ := ih h.2 hrel
    refine ⟨?_, hfinal⟩
    show obs e _ :: _ = _ :: _
    rw [hans, hrest]

theorem zipWith_answers (S : System σ ε α) (s : σ) (es : List ε) :
    List.zipWith (fun _ answer => answer) es (S.answers s es) = S.answers s es := by
  induction es generalizing s with
  | nil => rfl
  | cons e es ih => exact congrArg (List.cons _) (ih _)

/-- The simulation rule where the answers are the same. -/
theorem simulation_answers {S : System σ ε α} {T : System τ ε α} (Rel : σ → τ → Prop)
    {s : σ} {t : τ} {es : List ε} (h : S.Admits s es) (h0 : Rel s t)
    (hstep : ∀ s t e, S.admits s e → Rel s t →
      (S.step s e).1 = (T.step t e).1 ∧ Rel (S.step s e).2 (T.step t e).2) :
    S.answers s es = T.answers t es ∧ Rel (S.after s es) (T.after t es) := by
  rw [← S.zipWith_answers]
  exact simulation (fun _ answer => answer) Rel h h0 hstep

end System
