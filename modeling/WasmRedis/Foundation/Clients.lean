import WasmRedis.Foundation.Runs

/-!
# Clients of a system

Several clients use one system at once. Each has a list of requests to make, in
order, and keeps the answers it gets. The system is used under a lock: a request
is served whole before the next, whoever makes it, so that a run of all is a
list of moves, and other things may happen to the system between two requests.

`serial` is the order in which a run had everything served. Three facts say what
this order is worth: it is a run of the system alone (`serial_admits`), it has
the requests of each client in the client's own order (`own_serial`), and each
client has been given the answers to its own requests in that one run
(`got_serial`). A client that has one request has it served at one move
(`exists_ask`), and what the clients have been given adds up to what has changed
(`balance`). The projection rule then says what a client can know of the
others: `own_answers` gives it the answers of a run of its own requests, alone,
if what the others do cannot be told from where it looks.
-/

namespace System

variable {σ τ ε α β γ ι ρ κ : Type}

/-- A client. -/
structure Client (ρ α : Type) where
  /-- The requests it has not made yet. -/
  todo : List ρ
  /-- The answers it has been given. -/
  got : List α

/-- A client that has not begun. -/
def Client.new (todo : List ρ) : Client ρ α := { todo := todo, got := [] }

/-- A system and the clients that use it. -/
structure Shared (σ ι ρ α : Type) where
  /-- The system. -/
  state : σ
  /-- The clients. -/
  clients : ι → Client ρ α

/-- What happens to a system that is shared. -/
inductive Move (ι κ ε : Type) where
  /-- A client makes its next request, under some circumstances. -/
  | ask (client : ι) (circumstances : κ)
  /-- Something else happens. -/
  | other (event : ε)

section Shared

variable [DecidableEq ι] (S : System σ ε α) (event : ρ → κ → ε)

/-- **A system that is shared**: a request is an event of the system. -/
def shared : System (Shared σ ι ρ α) (Move ι κ ε) Unit where
  admits s
    | .ask i k => ∃ q rest, (s.clients i).todo = q :: rest ∧ S.admits s.state (event q k)
    | .other e => S.admits s.state e
  step s
    | .ask i k =>
      match (s.clients i).todo with
      | [] => ((), s)
      | q :: rest =>
        ((), { state := (S.step s.state (event q k)).2
               clients := Function.update s.clients i
                { todo := rest
                  got := (s.clients i).got ++ [(S.step s.state (event q k)).1] } })
    | .other e => ((), { s with state := (S.step s.state e).2 })

/-- The events of the system that a move is, and who asked for them. -/
def served (s : Shared σ ι ρ α) : Move ι κ ε → List (Option ι × ε)
  | .ask i k => ((s.clients i).todo.take 1).map (fun q => (some i, event q k))
  | .other e => [(none, e)]

/-- **The serial order of a run**: the events of the system, and who asked for
them. -/
def serial : Shared σ ι ρ α → List (Move ι κ ε) → List (Option ι × ε)
  | _, [] => []
  | s, m :: ms => served event s m ++ serial ((S.shared event).step s m).2 ms

end Shared

section Own

variable [DecidableEq ι] {i : ι}

/-- What falls to a client: the items that stand at its own events. -/
def own (i : ι) (trace : List (Option ι × ε)) (items : List β) : List β :=
  ((trace.zip items).filter (fun x => x.1.1 = some i)).map Prod.snd

theorem own_cons_self (e : ε) (trace : List (Option ι × ε)) (b : β) (items : List β) :
    own i ((some i, e) :: trace) (b :: items) = b :: own i trace items := by
  unfold own
  rw [List.zip_cons_cons, List.filter_cons_of_pos (by simp), List.map_cons]

theorem own_cons_ne {who : Option ι} (h : who ≠ some i) (e : ε) (trace : List (Option ι × ε))
    (b : β) (items : List β) : own i ((who, e) :: trace) (b :: items) = own i trace items := by
  unfold own
  rw [List.zip_cons_cons, List.filter_cons_of_neg (by simpa using h)]

/-- What is done to the items of a client. -/
theorem own_zipWith {f : ε → β → γ} {g : β → γ} {trace : List (Option ι × ε)}
    (h : ∀ e, (some i, e) ∈ trace → ∀ b, f e b = g b) (items : List β) :
    own i trace (List.zipWith f (trace.map Prod.snd) items) = (own i trace items).map g := by
  induction trace generalizing items with
  | nil => rfl
  | cons x trace ih =>
    obtain ⟨who, e⟩ := x
    cases items with
    | nil => rfl
    | cons b items =>
      have hrest := ih (fun e he => h e (List.mem_cons_of_mem _ he)) items
      show own i ((who, e) :: trace) (f e b :: List.zipWith f (trace.map Prod.snd) items) = _
      by_cases hwho : who = some i
      · subst hwho
        rw [own_cons_self, own_cons_self, hrest, h e List.mem_cons_self]
        rfl
      · rw [own_cons_ne hwho, own_cons_ne hwho, hrest]

end Own

/-! ## The serial order -/

section Serial

variable [DecidableEq ι] {S : System σ ε α} {event : ρ → κ → ε} {s : Shared σ ι ρ α}
  {ms : List (Move ι κ ε)}

/-- A move that is admitted is one event of the system, which is admitted. -/
theorem served_of_admits {m : Move ι κ ε} (h : (S.shared event).admits s m) :
    ∃ who e, served event s m = [(who, e)] ∧ S.admits s.state e
      ∧ ((S.shared event).step s m).2.state = (S.step s.state e).2
      ∧ ∀ i, (((S.shared event).step s m).2.clients i).got
          = (s.clients i).got ++ own i [(who, e)] [(S.step s.state e).1]
        ∧ (who ≠ some i ∧ ((S.shared event).step s m).2.clients i = s.clients i
          ∨ who = some i ∧ ∃ q k, e = event q k
            ∧ (s.clients i).todo = q :: (((S.shared event).step s m).2.clients i).todo) := by
  cases m with
  | ask j k =>
    obtain ⟨q, rest, htodo, hadm⟩ := h
    refine ⟨some j, event q k, ?_, hadm, ?_⟩
    · unfold served
      dsimp only
      rw [htodo]
      rfl
    unfold shared
    dsimp only
    rw [htodo]
    refine ⟨rfl, fun i => ?_⟩
    by_cases hij : i = j
    · subst hij
      dsimp only
      rw [Function.update_self, own_cons_self]
      exact ⟨rfl, Or.inr ⟨rfl, q, k, rfl, htodo⟩⟩
    · have hne : some j ≠ some i := fun h => hij (Option.some.inj h).symm
      dsimp only
      rw [Function.update_of_ne hij, own_cons_ne hne]
      exact ⟨(List.append_nil _).symm, Or.inl ⟨hne, rfl⟩⟩
  | other e =>
    refine ⟨none, e, rfl, h, rfl, fun i => ?_⟩
    rw [own_cons_ne (Option.some_ne_none i).symm]
    exact ⟨(List.append_nil _).symm, Or.inl ⟨(Option.some_ne_none i).symm, rfl⟩⟩

/-- **The serial order is a run of the system alone**, and leads to the same state. -/
theorem serial_admits (h : (S.shared event).Admits s ms) :
    S.Admits s.state ((S.serial event s ms).map Prod.snd)
      ∧ ((S.shared event).after s ms).state
        = S.after s.state ((S.serial event s ms).map Prod.snd) := by
  induction ms generalizing s with
  | nil => exact ⟨trivial, rfl⟩
  | cons m ms ih =>
    obtain ⟨who, e, hserved, hadm, hstate, _⟩ := served_of_admits h.1
    obtain ⟨hrest, hfinal⟩ := ih h.2
    rw [hstate] at hrest hfinal
    unfold serial
    rw [hserved]
    exact ⟨⟨hadm, hrest⟩, hfinal⟩

/-- **Each client is given the answers to its own requests**, in the order in which
they were served. -/
theorem got_serial (h : (S.shared event).Admits s ms) (i : ι) :
    (((S.shared event).after s ms).clients i).got
      = (s.clients i).got ++ own i (S.serial event s ms)
          (S.answers s.state ((S.serial event s ms).map Prod.snd)) := by
  induction ms generalizing s with
  | nil => exact (List.append_nil _).symm
  | cons m ms ih =>
    obtain ⟨who, e, hserved, hadm, hstate, hclients⟩ := served_of_admits h.1
    have hrest := ih h.2
    rw [hstate, (hclients i).1] at hrest
    unfold serial
    rw [hserved]
    refine hrest.trans ?_
    rw [List.append_assoc]
    refine congrArg _ ?_
    show own i [(who, e)] [(S.step s.state e).1] ++ _ = own i ((who, e) :: _) (_ :: _)
    by_cases hwho : who = some i
    · subst hwho
      rw [own_cons_self, own_cons_self]
      rfl
    · rw [own_cons_ne hwho, own_cons_ne hwho]
      rfl

theorem serial_append (ms' : List (Move ι κ ε)) :
    S.serial event s (ms ++ ms')
      = S.serial event s ms ++ S.serial event ((S.shared event).after s ms) ms' := by
  induction ms generalizing s with
  | nil => rfl
  | cons m ms ih =>
    show served event s m ++ S.serial event _ (ms ++ ms')
      = served event s m ++ S.serial event _ ms ++ _
    rw [ih, List.append_assoc]
    rfl

/-- The serial order of one request. -/
theorem serial_ask {i : ι} {k : κ} {q : ρ} {rest : List ρ}
    (h : (s.clients i).todo = q :: rest) :
    S.serial event s [Move.ask i k] = [(some i, event q k)] := by
  unfold serial served
  dsimp only
  rw [h]
  rfl

/-- What stands in the serial order: requests of the clients, and what else
happens. -/
theorem of_mem_serial {who : Option ι} {e : ε} (hmem : (who, e) ∈ S.serial event s ms) :
    (∃ i q k, who = some i ∧ q ∈ (s.clients i).todo ∧ e = event q k)
      ∨ who = none ∧ Move.other e ∈ ms := by
  induction ms generalizing s with
  | nil => exact absurd hmem List.not_mem_nil
  | cons m ms ih =>
    obtain hmem | hmem := List.mem_append.mp hmem
    · cases m with
      | ask i k =>
        obtain ⟨q, hq, heq⟩ := List.mem_map.mp hmem
        cases heq
        exact Or.inl ⟨i, q, k, rfl, List.mem_of_mem_take hq, rfl⟩
      | other e' =>
        cases List.mem_singleton.mp hmem
        exact Or.inr ⟨rfl, List.mem_cons_self⟩
    · obtain ⟨i, q, k, hwho, hq, he⟩ | ⟨hwho, hm⟩ := ih hmem
      · -- a request that is still to be made was to be made before
        refine Or.inl ⟨i, q, k, hwho, ?_, he⟩
        cases m with
        | other e' => exact hq
        | ask j k' =>
          unfold shared at hq
          dsimp only at hq
          cases htodo : (s.clients j).todo with
          | nil =>
            rw [htodo] at hq
            exact hq
          | cons q' rest =>
            rw [htodo] at hq
            dsimp only at hq
            by_cases hij : i = j
            · subst hij
              rw [Function.update_self] at hq
              rw [htodo]
              exact List.mem_cons_of_mem _ hq
            · rwa [Function.update_of_ne hij] at hq
      · exact Or.inr ⟨hwho, List.mem_cons_of_mem _ hm⟩

/-- **The order of a client is its own**: the events it asked for are its requests
from the first on, and the rest is still to do. -/
theorem own_serial (h : (S.shared event).Admits s ms) (i : ι) :
    ∃ done : List (ρ × κ),
      (s.clients i).todo
          = done.map Prod.fst ++ (((S.shared event).after s ms).clients i).todo
        ∧ own i (S.serial event s ms) ((S.serial event s ms).map Prod.snd)
          = done.map (fun x => event x.1 x.2) := by
  induction ms generalizing s with
  | nil => exact ⟨[], rfl, rfl⟩
  | cons m ms ih =>
    obtain ⟨who, e, hserved, _, _, hclients⟩ := served_of_admits h.1
    obtain ⟨done, htodo, hdone⟩ := ih h.2
    unfold serial
    rw [hserved, List.cons_append, List.nil_append]
    show ∃ done, _ = List.map Prod.fst done ++ _ ∧ own i ((who, e) :: _) (e :: _) = _
    obtain ⟨hwho, hsame⟩ | ⟨rfl, q, k, rfl, hq⟩ := (hclients i).2
    · rw [hsame] at htodo
      exact ⟨done, htodo, by rw [own_cons_ne hwho]; exact hdone⟩
    · refine ⟨(q, k) :: done, ?_, ?_⟩
      · rw [hq, htodo]
        rfl
      · rw [own_cons_self, hdone]
        rfl

/-- A client that has made all its requests is left alone. -/
theorem client_of_todo_nil (h : (S.shared event).Admits s ms) {i : ι}
    (htodo : (s.clients i).todo = []) :
    ((S.shared event).after s ms).clients i = s.clients i := by
  induction ms generalizing s with
  | nil => rfl
  | cons m ms ih =>
    obtain ⟨_, _, _, _, _, hclients⟩ := served_of_admits h.1
    obtain ⟨_, hsame⟩ | ⟨_, q, _, _, hq⟩ := (hclients i).2
    · exact (ih h.2 (hsame ▸ htodo)).trans hsame
    · rw [htodo] at hq
      cases hq

/-- **A client with one request** has it served by one move, and is given the answer
to it in the state in which that move finds the system. -/
theorem exists_ask (h : (S.shared event).Admits s ms) {i : ι} {q : ρ}
    (htodo : (s.clients i).todo = [q])
    (hdone : (((S.shared event).after s ms).clients i).todo = []) :
    ∃ before k later, ms = before ++ Move.ask i k :: later
      ∧ (((S.shared event).after s before).clients i).todo = [q]
      ∧ (((S.shared event).after s ms).clients i).got
        = (s.clients i).got
          ++ [(S.step ((S.shared event).after s before).state (event q k)).1] := by
  induction ms generalizing s with
  | nil =>
    rw [show ((S.shared event).after s []).clients i = s.clients i from rfl, htodo] at hdone
    cases hdone
  | cons m ms ih =>
    obtain ⟨hadm, hrest⟩ := h
    by_cases hm : ∃ k, m = Move.ask i k
    · obtain ⟨k, rfl⟩ := hm
      refine ⟨[], k, ms, rfl, htodo, ?_⟩
      have hstep : ((S.shared event).step s (Move.ask i k)).2.clients i
          = { todo := [], got := (s.clients i).got ++ [(S.step s.state (event q k)).1] } := by
        unfold shared
        dsimp only
        rw [htodo]
        exact Function.update_self ..
      have hafter := client_of_todo_nil hrest (congrArg Client.todo hstep)
      exact congrArg Client.got (hafter.trans hstep)
    · have hsame : ((S.shared event).step s m).2.clients i = s.clients i := by
        cases m with
        | other e => rfl
        | ask j k =>
          obtain ⟨_, _, hj, _⟩ := hadm
          unfold shared
          dsimp only
          rw [hj]
          exact Function.update_of_ne (fun hij => hm ⟨k, by rw [hij]⟩) ..
      obtain ⟨before, k, later, rfl, hstill, hgot⟩ := ih hrest (hsame ▸ htodo) hdone
      exact ⟨m :: before, k, later, rfl, hstill, hgot.trans (by rw [hsame]; rfl)⟩

/-- A client is given one answer for each request it has made. -/
theorem length_got (h : (S.shared event).Admits s ms) (i : ι) :
    (((S.shared event).after s ms).clients i).got.length
        + (((S.shared event).after s ms).clients i).todo.length
      = (s.clients i).got.length + (s.clients i).todo.length := by
  induction ms generalizing s with
  | nil => rfl
  | cons m ms ih =>
    obtain ⟨who, e, _, _, _, hclients⟩ := served_of_admits h.1
    obtain ⟨hgot, ⟨_, hsame⟩ | ⟨rfl, q, k, _, htodo⟩⟩ := hclients i
    · exact (ih h.2).trans (by rw [hsame])
    · refine (ih h.2).trans ?_
      rw [hgot, htodo, own_cons_self, List.length_append, List.length_cons, List.length_cons]
      show _ + (0 + 1) + _ = _
      omega

/-- **The rule of balance.** Suppose that a quantity of the system changes at a
request by the weight of its answer, and at no other event. Then over a run it has
changed by the weight of all that the clients have been given. -/
theorem balance [Fintype ι] (weight : ι → α → ℤ) (quantity : σ → ℤ) (I : σ → Prop)
    (h : (S.shared event).Admits s ms) (h0 : I s.state)
    (hask : ∀ i q, q ∈ (s.clients i).todo → ∀ state k, I state → S.admits state (event q k) →
      I (S.step state (event q k)).2
        ∧ quantity (S.step state (event q k)).2
          = quantity state + weight i (S.step state (event q k)).1)
    (hother : ∀ state e, Move.other e ∈ ms → I state → S.admits state e →
      I (S.step state e).2 ∧ quantity (S.step state e).2 = quantity state) :
    quantity ((S.shared event).after s ms).state
        + ∑ i, ((s.clients i).got.map (weight i)).sum
      = quantity s.state
        + ∑ i, ((((S.shared event).after s ms).clients i).got.map (weight i)).sum := by
  induction ms generalizing s with
  | nil => rfl
  | cons m ms ih =>
    obtain ⟨hadm, hrest⟩ := h
    -- what the first move does to the quantity, and to what has been given
    have hmove : I ((S.shared event).step s m).2.state
        ∧ quantity ((S.shared event).step s m).2.state
            + ∑ i, ((s.clients i).got.map (weight i)).sum
          = quantity s.state
            + ∑ i, ((((S.shared event).step s m).2.clients i).got.map (weight i)).sum
        ∧ ∀ i q, q ∈ (((S.shared event).step s m).2.clients i).todo → q ∈ (s.clients i).todo := by
      cases m with
      | other e =>
        obtain ⟨hI, hsame⟩ := hother s.state e List.mem_cons_self h0 hadm
        exact ⟨hI, congrArg (· + _) hsame, fun _ _ hq => hq⟩
      | ask j k =>
        obtain ⟨q, rest, htodo, hadm⟩ := hadm
        obtain ⟨hI, hchange⟩ := hask j q (htodo ▸ List.mem_cons_self) s.state k h0 hadm
        unfold shared
        dsimp only
        rw [htodo]
        dsimp only
        refine ⟨hI, ?_, fun i q' hq' => ?_⟩
        · have hterm : ∀ i, ((Function.update s.clients j
                { todo := rest
                  got := (s.clients j).got ++ [(S.step s.state (event q k)).1] } i).got.map
                (weight i)).sum
              = ((s.clients i).got.map (weight i)).sum
                + if i = j then weight j (S.step s.state (event q k)).1 else 0 := by
            intro i
            by_cases hij : i = j
            · subst hij
              rw [Function.update_self, if_pos rfl, List.map_append, List.sum_append,
                List.map_singleton, List.sum_singleton]
            · rw [Function.update_of_ne hij, if_neg hij, add_zero]
          rw [Finset.sum_congr rfl (fun i _ => hterm i), Finset.sum_add_distrib,
            Finset.sum_ite_eq' Finset.univ j, if_pos (Finset.mem_univ j), hchange]
          ring
        · by_cases hij : i = j
          · subst hij
            rw [Function.update_self] at hq'
            exact htodo ▸ List.mem_cons_of_mem _ hq'
          · rwa [Function.update_of_ne hij] at hq'
    obtain ⟨hI, hbalance, htodo⟩ := hmove
    have hfinal := ih hrest hI (fun i q hq => hask i q (htodo i q hq))
      (fun state e he => hother state e (List.mem_cons_of_mem _ he))
    show quantity ((S.shared event).after ((S.shared event).step s m).2 ms).state + _
      = _ + ∑ i, ((((S.shared event).after ((S.shared event).step s m).2 ms).clients i).got.map
          (weight i)).sum
    linarith only [hbalance, hfinal]

end Serial

/-! ## The projection rule -/

/-- **The projection rule.** Suppose that a relation between the states of two
systems is kept when an event of the client happens to both, which then answer it
alike, and when any other event happens to the first alone. Then the client is
answered as by the second system, with its own events alone. -/
theorem own_answers [DecidableEq ι] {S : System σ ε α} {T : System τ ε α} {i : ι}
    (Rel : σ → τ → Prop) {s : σ} {t : τ} {trace : List (Option ι × ε)}
    (h : S.Admits s (trace.map Prod.snd)) (h0 : Rel s t)
    (hown : ∀ s t e, (some i, e) ∈ trace → S.admits s e → Rel s t →
      (S.step s e).1 = (T.step t e).1 ∧ Rel (S.step s e).2 (T.step t e).2)
    (hother : ∀ s t who e, (who, e) ∈ trace → who ≠ some i → S.admits s e → Rel s t →
      Rel (S.step s e).2 t) :
    own i trace (S.answers s (trace.map Prod.snd))
      = T.answers t (own i trace (trace.map Prod.snd)) := by
  induction trace generalizing s t with
  | nil => rfl
  | cons x trace ih =>
    obtain ⟨who, e⟩ := x
    obtain ⟨hadm, hrest⟩ := h
    have hown' := fun s t e hmem => hown s t e (List.mem_cons_of_mem _ hmem)
    have hother' := fun s t who e hmem => hother s t who e (List.mem_cons_of_mem _ hmem)
    show own i ((who, e) :: trace) ((S.step s e).1 :: S.answers (S.step s e).2 _)
      = T.answers t (own i ((who, e) :: trace) (e :: _))
    by_cases hwho : who = some i
    · subst hwho
      obtain ⟨hans, hrel⟩ := hown s t e List.mem_cons_self hadm h0
      rw [own_cons_self, own_cons_self, ih hrest hrel hown' hother', hans]
      rfl
    · have hrel := hother s t who e List.mem_cons_self hwho hadm h0
      rw [own_cons_ne hwho, own_cons_ne hwho]
      exact ih hrest hrel hown' hother'

end System
