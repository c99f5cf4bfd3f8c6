import WasmRedis.Foundation.Runs

/-!
# Refinement of a specification that chooses

A specification says of an event which answers are allowed and what each may
lead to, and leaves the choice to whoever implements it. A system refines it if
every run of the system, with the answers it gave, is a run of the
specification: what the system did is one of the things allowed, event after
event, by one and the same line of choices.
-/

/-- A specification. -/
structure Specification (τ ε α : Type) where
  /-- Which answers to an event are allowed in a state, and what they may lead to. -/
  allows : τ → ε → α → τ → Prop

namespace Specification

variable {σ τ ε α : Type}

/-- A run of the specification: events, with their answers. -/
inductive Runs (T : Specification τ ε α) : τ → List (ε × α) → τ → Prop where
  /-- Nothing happened. -/
  | nil {t : τ} : Runs T t [] t
  /-- An event, and the rest. -/
  | cons {t t' t'' : τ} {e : ε} {a : α} {rest : List (ε × α)} :
      T.allows t e a t' → Runs T t' rest t'' → Runs T t ((e, a) :: rest) t''

/-- **The refinement rule.** If what a system does is allowed, from states that are
related to states that are related, its runs are runs of the specification. -/
theorem refines {S : System σ ε α} {T : Specification τ ε α} (Rel : σ → τ → Prop) {s : σ} {t : τ}
    {es : List ε} (h : S.Admits s es) (h0 : Rel s t)
    (hstep : ∀ s t e, S.admits s e → Rel s t →
      ∃ t', T.allows t e (S.step s e).1 t' ∧ Rel (S.step s e).2 t') :
    ∃ t', T.Runs t (es.zip (S.answers s es)) t' ∧ Rel (S.after s es) t' := by
  induction es generalizing s t with
  | nil => exact ⟨t, Runs.nil, h0⟩
  | cons e es ih =>
    obtain ⟨t', hallows, hrel⟩ := hstep s t e h.1 h0
    obtain ⟨t'', hruns, hfinal⟩ := ih h.2 hrel
    exact ⟨t'', Runs.cons hallows hruns, hfinal⟩

theorem Runs.append {T : Specification τ ε α} {t t' t'' : τ} {first rest : List (ε × α)}
    (hfirst : T.Runs t first t') (hrest : T.Runs t' rest t'') : T.Runs t (first ++ rest) t'' := by
  induction hfirst with
  | nil => exact hrest
  | cons hallows _ ih => exact Runs.cons hallows (ih hrest)

/-- **The refinement rule, for a system that is larger than the specification**: it
answers an event with what has happened there meanwhile, which may be nothing, or
more than one event of the specification. -/
theorem refines_flatten {κ : Type} {S : System σ κ (List (ε × α))} {T : Specification τ ε α}
    (Rel : σ → τ → Prop) {s : σ} {t : τ} {es : List κ} (h : S.Admits s es) (h0 : Rel s t)
    (hstep : ∀ s t e, S.admits s e → Rel s t →
      ∃ t', T.Runs t (S.step s e).1 t' ∧ Rel (S.step s e).2 t') :
    ∃ t', T.Runs t (S.answers s es).flatten t' ∧ Rel (S.after s es) t' := by
  induction es generalizing s t with
  | nil => exact ⟨t, Runs.nil, h0⟩
  | cons e es ih =>
    obtain ⟨t', hruns, hrel⟩ := hstep s t e h.1 h0
    obtain ⟨t'', hrest, hfinal⟩ := ih h.2 hrel
    exact ⟨t'', hruns.append hrest, hfinal⟩

/-- A system, as the specification that leaves no choice. -/
def ofSystem (T : System τ ε α) : Specification τ ε α where
  allows t e a t' := T.step t e = (a, t')

/-- A run of it is a run of the system. -/
theorem Runs.answers {T : System τ ε α} {t t' : τ} {rest : List (ε × α)}
    (h : (ofSystem T).Runs t rest t') :
    rest.map (·.2) = T.answers t (rest.map (·.1)) ∧ t' = T.after t (rest.map (·.1)) := by
  induction h with
  | nil => exact ⟨rfl, rfl⟩
  | @cons t t' t'' e a rest hallows _ ih =>
    have hstep : T.step t e = (a, t') := hallows
    rw [List.map_cons, List.map_cons]
    show a :: _ = (T.step t e).1 :: T.answers (T.step t e).2 _ ∧ t'' = T.after (T.step t e).2 _
    rw [hstep]
    exact ⟨congrArg (List.cons a) ih.1, ih.2⟩

/-- What every event of a run preserves, where it is allowed, the run preserves. -/
theorem Runs.invariant {T : Specification τ ε α} {I : τ → Prop} {t t' : τ}
    {rest : List (ε × α)} (h : T.Runs t rest t') (h0 : I t)
    (hstep : ∀ t e a t', (e, a) ∈ rest → T.allows t e a t' → I t → I t') : I t' := by
  induction h with
  | nil => exact h0
  | cons hallows _ ih =>
    exact ih (hstep _ _ _ _ List.mem_cons_self hallows h0)
      (fun t e a t' hmem => hstep t e a t' (List.mem_cons_of_mem _ hmem))

end Specification
