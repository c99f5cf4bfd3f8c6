import WasmRedis.Foundation.Clients
import WasmRedis.Interpreter

/-!
# Batches

A batch is executed line after line, or command after command; the engine is
locked for each of them and not between two. Any number of batches may be under
way at once, with other calls and the background tasks in between, so that a
batch is not a transaction.

Two things hold of it all the same. The results of all the batches are those of
one map that executes the lines one at a time, in an order which has those of
each batch in the order of the batch (`batches_serial`): a line that fails gets
its error, and the next is executed. And a batch that names keys which nothing
else writes is told what it would be told alone (`batch_isolated`).
-/

namespace WasmRedis

open GoString

/-! ## Batches -/

/-- What is asked at a time in a batch. -/
inductive Demand where
  /-- A line of `ExecuteBatchStrings`. -/
  | line (input : GoString)
  /-- A command of `ExecuteBatch`. -/
  | command (cmd : Command)

/-- What decides a demand, beside the engine. -/
structure Circumstances where
  /-- The order in which it visits maps. -/
  order : RangeOrder GoString
  /-- The reading of the clock. -/
  now : Time
  /-- An instant that the clock has reached when it ends. -/
  before : Time

/-- The turn of a demand. -/
def Demand.turn (demand : Demand) (k : Circumstances) : Asked × Time :=
  match demand with
  | .line input => (.line k.order input k.now, k.before)
  | .command cmd => (.call (.execute k.order cmd k.now), k.before)

/-- `e.ExecuteBatch(commands)`: the commands one after the other, and a result for
each. -/
def executeBatch (commands : List Command) : System.Client Demand Answer :=
  System.Client.new (commands.map Demand.command)

/-- `e.ExecuteBatchStrings(lines)`. -/
def executeBatchStrings (lines : List GoString) : System.Client Demand Answer :=
  System.Client.new (lines.map Demand.line)

/-! ## Keys -/

namespace Command

/-- The command writes under the key. -/
def Writes (cmd : Command) (key : GoString) : Prop :=
  (cmd.kind = kindSet ∨ cmd.kind = kindDelete) ∧ cmd.key = key

/-- The command looks nowhere but under keys of a set. -/
def Names (cmd : Command) (keys : Set GoString) : Prop :=
  cmd.kind ≠ kindGetWhere
    ∧ (cmd.kind = kindSet ∨ cmd.kind = kindGet ∨ cmd.kind = kindDelete → cmd.key ∈ keys)

end Command

section

variable (R : Type) [Strconv R] [TextLib]

/-- The turn writes under the key. -/
def Asked.Writes (key : GoString) : Asked → Prop
  | .line _ input _ => ∃ cmd, parse R input = .ok cmd ∧ cmd.Writes key
  | .call (.execute _ cmd _) => cmd.Writes key
  | .call (.set key' _ _ _ _) => key' = key
  | .call (.delete key') => key' = key
  | .call _ => False

/-- The demand writes under the key. -/
def Demand.Writes (key : GoString) : Demand → Prop
  | .line input => ∃ cmd, parse R input = .ok cmd ∧ cmd.Writes key
  | .command cmd => cmd.Writes key

/-- The demand looks nowhere but under keys of a set. -/
def Demand.Names (keys : Set GoString) : Demand → Prop
  | .line input => ∀ cmd, parse R input = .ok cmd → cmd.Names keys
  | .command cmd => cmd.Names keys

end

theorem Demand.observed_turn (demand : Demand) (k : Circumstances) :
    (demand.turn k).1.observed = true := by
  cases demand <;> rfl

variable {R : Type} [LinearOrder R] [Zero R] [Strconv R]

namespace Reference

variable {defaultTTL : ℤ} {ref ref' : Reference} {keys : Set GoString}

/-- The two maps are the same under the keys of a set. -/
def AgreeOn (keys : Set GoString) (ref ref' : Reference) : Prop :=
  ∀ key ∈ keys, ref.lookup key = ref'.lookup key

omit [LinearOrder R] [Zero R] in
/-- **A SET does not look at the map**: it is refused, or puts one item. -/
theorem set_cases (defaultTTL : ℤ) (key value : GoString) (number : Bool) (ttl : ℤ) (now : Time) :
    (∃ err, ∀ ref : Reference, ref.set R defaultTTL key value number ttl now = (some err, ref))
      ∨ ∃ item, ∀ ref : Reference, ref.set R defaultTTL key value number ttl now
          = (none, ref.insert key item) := by
  unfold set
  by_cases hneg : ttl < 0
  · exact Or.inl ⟨_, fun ref => if_pos hneg⟩
  by_cases hnum : (number && !Strconv.isFiniteNumber R value) = true
  · exact Or.inl ⟨_, fun ref => (if_neg hneg).trans (if_pos hnum)⟩
  by_cases hfit : 0 < (if ttl = 0 then defaultTTL else ttl)
      ∧ ¬ Fits (now + if ttl = 0 then defaultTTL else ttl)
  · exact Or.inl ⟨_, fun ref => (if_neg hneg).trans ((if_neg hnum).trans (if_pos hfit))⟩
  · exact Or.inr ⟨_, fun ref => (if_neg hneg).trans ((if_neg hnum).trans (if_neg hfit))⟩

variable (R defaultTTL) in
omit [LinearOrder R] [Zero R] in
/-- A SET leaves the other keys as they are. -/
theorem lookup_set (ref : Reference) {key k : GoString} (value : GoString) (number : Bool)
    (ttl : ℤ) (now : Time) (h : k ≠ key) :
    (ref.set R defaultTTL k value number ttl now).2.lookup key = ref.lookup key := by
  obtain ⟨err, hset⟩ | ⟨item, hset⟩ := set_cases (R := R) defaultTTL k value number ttl now
  · rw [hset]
  · rw [hset]
    exact Finmap.lookup_insert_of_ne _ h.symm

/-- A command leaves the keys it does not write as they are. -/
theorem lookup_execute (ref : Reference) {cmd : Command} (now : Time) {key : GoString}
    (h : ¬ cmd.Writes key) :
    (ref.execute R defaultTTL cmd now).2.lookup key = ref.lookup key := by
  unfold execute
  by_cases hset : cmd.kind = kindSet
  · have hkey : cmd.key ≠ key := fun hk => h ⟨Or.inl hset, hk⟩
    have hlookup := ref.lookup_set R defaultTTL cmd.value cmd.isNumber cmd.ttl now hkey
    rw [if_pos hset]
    generalize ref.set R defaultTTL cmd.key cmd.value cmd.isNumber cmd.ttl now = s at hlookup ⊢
    obtain ⟨_ | err, after⟩ := s <;> exact hlookup
  rw [if_neg hset]
  by_cases hget : cmd.kind = kindGet
  · rw [if_pos hget]
    cases ref.visible now cmd.key <;> rfl
  rw [if_neg hget]
  by_cases hdelete : cmd.kind = kindDelete
  · rw [if_pos hdelete]
    exact Finmap.lookup_erase_ne (fun hk => h ⟨Or.inr hdelete, hk.symm⟩)
  rw [if_neg hdelete]
  split_ifs
  · rfl
  · cases ref.getWhere R cmd.field cmd.operator cmd.operand cmd.operandIsNumber now <;> rfl
  · rfl

theorem AgreeOn.insert (h : AgreeOn keys ref ref') (key : GoString) (item : Item) :
    AgreeOn keys (ref.insert key item) (ref'.insert key item) := by
  intro k hk
  by_cases hkk : k = key
  · rw [hkk, Finmap.lookup_insert, Finmap.lookup_insert]
  · rw [Finmap.lookup_insert_of_ne _ hkk, Finmap.lookup_insert_of_ne _ hkk, h k hk]

theorem AgreeOn.erase (h : AgreeOn keys ref ref') (key : GoString) :
    AgreeOn keys (ref.erase key) (ref'.erase key) := by
  intro k hk
  by_cases hkk : k = key
  · rw [hkk, Finmap.lookup_erase, Finmap.lookup_erase]
  · rw [Finmap.lookup_erase_ne hkk, Finmap.lookup_erase_ne hkk, h k hk]

variable (R defaultTTL) in
/-- **What looks nowhere but under some keys** is answered alike by maps that agree
on them, and they still do. -/
theorem AgreeOn.execute (h : AgreeOn keys ref ref') {cmd : Command} (hcmd : cmd.Names keys)
    (now : Time) :
    (ref.execute R defaultTTL cmd now).1 = (ref'.execute R defaultTTL cmd now).1
      ∧ AgreeOn keys (ref.execute R defaultTTL cmd now).2
          (ref'.execute R defaultTTL cmd now).2 := by
  obtain ⟨hwhere, hkey⟩ := hcmd
  unfold Reference.execute
  by_cases hset : cmd.kind = kindSet
  · rw [if_pos hset, if_pos hset]
    obtain ⟨err, heq⟩ | ⟨item, heq⟩ :=
      set_cases (R := R) defaultTTL cmd.key cmd.value cmd.isNumber cmd.ttl now
    · rw [heq, heq]
      exact ⟨rfl, h⟩
    · rw [heq, heq]
      exact ⟨rfl, h.insert cmd.key item⟩
  rw [if_neg hset, if_neg hset]
  by_cases hget : cmd.kind = kindGet
  · have hvis : ref.visible now cmd.key = ref'.visible now cmd.key :=
      congrArg _ (h cmd.key (hkey (Or.inr (Or.inl hget))))
    rw [if_pos hget, if_pos hget, hvis]
    cases ref'.visible now cmd.key <;> exact ⟨rfl, h⟩
  rw [if_neg hget, if_neg hget]
  by_cases hdelete : cmd.kind = kindDelete
  · rw [if_pos hdelete, if_pos hdelete]
    exact ⟨rfl, h.erase cmd.key⟩
  rw [if_neg hdelete, if_neg hdelete]
  by_cases hping : cmd.kind = kindPing
  · rw [if_pos hping, if_pos hping]
    exact ⟨rfl, h⟩
  rw [if_neg hping, if_neg hping, if_neg hwhere, if_neg hwhere]
  exact ⟨rfl, h⟩

variable [TextLib]

/-- **What does not write under a key leaves it as it is.** -/
theorem lookup_turn (ref : Reference) {what : Asked} {key : GoString} (h : ¬ what.Writes R key) :
    (ref.turn R defaultTTL what).2.lookup key = ref.lookup key := by
  cases what with
  | line r input now =>
    show (ref.executeString R defaultTTL input now).2.lookup key = _
    unfold executeString
    cases hparse : parse R input with
    | error err => rfl
    | ok cmd => exact ref.lookup_execute now (fun hw => h ⟨cmd, hparse, hw⟩)
  | call c =>
    cases c with
    | set k value number ttl now => exact ref.lookup_set R defaultTTL value number ttl now h
    | delete k => exact Finmap.lookup_erase_ne (fun hk => h hk.symm)
    | execute r cmd now => exact ref.lookup_execute now h
    | _ => rfl

/-- The same for what is asked in a batch. -/
theorem AgreeOn.turn (h : AgreeOn keys ref ref') {demand : Demand} (hnames : demand.Names R keys)
    (k : Circumstances) :
    (ref.turn R defaultTTL (demand.turn k).1).1 = (ref'.turn R defaultTTL (demand.turn k).1).1
      ∧ AgreeOn keys (ref.turn R defaultTTL (demand.turn k).1).2
          (ref'.turn R defaultTTL (demand.turn k).1).2 := by
  cases demand with
  | line input =>
    show some (Answer.result (ref.executeString R defaultTTL input k.now).1)
        = some (Answer.result (ref'.executeString R defaultTTL input k.now).1)
      ∧ AgreeOn keys (ref.executeString R defaultTTL input k.now).2
          (ref'.executeString R defaultTTL input k.now).2
    unfold executeString
    cases hparse : parse R input with
    | error err => exact ⟨rfl, h⟩
    | ok cmd =>
      obtain ⟨hans, hagree⟩ := h.execute R defaultTTL (hnames cmd hparse) k.now
      exact ⟨congrArg (some ∘ Answer.result) hans, hagree⟩
  | command cmd =>
    obtain ⟨hans, hagree⟩ := h.execute R defaultTTL hnames k.now
    exact ⟨congrArg (some ∘ Answer.result) hans, hagree⟩

end Reference

variable [TextLib]

omit [LinearOrder R] [Zero R] in
/-- A turn writes what its demand writes. -/
theorem Demand.writes_turn {demand : Demand} {k : Circumstances} {key : GoString}
    (h : (demand.turn k).1.Writes R key) : demand.Writes R key := by
  cases demand with
  | line input => exact h
  | command cmd => exact h

/-! ## The theorems -/

namespace Engine

section Clients

open System

variable {ι : Type} [DecidableEq ι] {cfg : Config} {e : Engine R} {t : Time}
  {batches : ι → Client Demand Answer} {moves : List (Move ι Circumstances (Asked × Time))}

/-- The batches under way on an engine, and what else is asked of it. -/
abbrev service (ι : Type) [DecidableEq ι] :
    System (Shared (Engine R × Time) ι Demand Answer) (Move ι Circumstances (Asked × Time)) Unit :=
  dialogue.shared Demand.turn

/-- The order in which a run executed everything. -/
abbrev order (e : Engine R) (t : Time) (batches : ι → Client Demand Answer)
    (moves : List (Move ι Circumstances (Asked × Time))) : List (Option ι × (Asked × Time)) :=
  dialogue.serial Demand.turn { state := (e, t), clients := batches } moves

/-- The batches after a run. -/
abbrev batchesAfter (e : Engine R) (t : Time) (batches : ι → Client Demand Answer)
    (moves : List (Move ι Circumstances (Asked × Time))) : ι → Client Demand Answer :=
  ((service ι).after { state := (e, t), clients := batches } moves).clients

/-- The results of the batches are those of a reference that the engine follows. -/
theorem Follows.got_batches {defaultTTL : ℤ} {ref : Reference}
    (hfollows : Follows defaultTTL t e ref) (hnew : ∀ i, (batches i).got = [])
    (hrun : (service ι).Admits { state := (e, t), clients := batches } moves) (i : ι) :
    (batchesAfter e t batches moves i).got.map some
      = own i (order e t batches moves)
          ((Reference.language R defaultTTL).answers ref
            ((order e t batches moves).map Prod.snd)) := by
  have hserial : dialogue.Admits (e, t) ((order e t batches moves).map Prod.snd) :=
    (serial_admits hrun).1
  have hgot := got_serial hrun i
  rw [hnew i, List.nil_append] at hgot
  rw [← hfollows.told hserial]
  refine Eq.trans (congrArg _ hgot) (Eq.symm (own_zipWith (fun event hevent answer => ?_) _))
  obtain ⟨j, demand, k, _, _, rfl⟩ | ⟨hnone, _⟩ := of_mem_serial hevent
  · rw [demand.observed_turn, if_pos rfl]
  · cases hnone

/-- **The results of all the batches are those of one map.** However the batches
under way, the other calls and the background tasks take turns at an engine that
starts empty: the lines of a batch executed so far are its first, in order, and
their results are those that one map gives when it takes all the turns, one at a
time, in the order in which they were taken. -/
theorem batches_serial (hstart : StartsEmpty cfg e) (hnew : ∀ i, (batches i).got = [])
    (hrun : (service ι).Admits { state := (e, t), clients := batches } moves) (i : ι) :
    ∃ done : List (Demand × Circumstances),
      (batches i).todo = done.map Prod.fst ++ (batchesAfter e t batches moves i).todo
        ∧ own i (order e t batches moves) ((order e t batches moves).map Prod.snd)
          = done.map (fun x => x.1.turn x.2)
        ∧ (batchesAfter e t batches moves i).got.map some
          = own i (order e t batches moves)
              ((Reference.language R cfg.defaultTTL).answers ∅
                ((order e t batches moves).map Prod.snd)) := by
  obtain ⟨done, htodo, hdone⟩ := own_serial hrun i
  exact ⟨done, htodo, hdone, (hstart.follows t).got_batches hnew hrun i⟩

/-- Two batches: the one on the key `a` has a line that is no command. -/
def twoBatches (client : Bool) : Client Demand Answer :=
  if client then executeBatchStrings [str "SET a 1 EX 5", str "oops", str "GET a"]
  else executeBatch [{ kind := kindSet, key := str "b", value := str "x" },
    { kind := kindGetWhere, field := str "key", operator := str "contains", operand := str "" }]

/-- They take turns, with a sweep in between. -/
def twoBatchesMoves : List (Move Bool Circumstances (Asked × Time)) :=
  [.ask true ⟨RangeOrder.sorted, 0, 0⟩, .ask false ⟨RangeOrder.sorted, 1, 1⟩,
    .ask true ⟨RangeOrder.sorted, 2, 2⟩,
    .other (.call (.sweepExpired RangeOrder.sorted 5000000000), 5000000000),
    .ask false ⟨RangeOrder.sorted, 5000000000, 5000000000⟩,
    .ask true ⟨RangeOrder.sorted, 5000000000, 5000000000⟩]

omit [TextLib] in
/-- These moves can be made. -/
theorem twoBatches_admits :
    let _ := TextLib.ascii
    (service Bool).Admits { state := ((new : Engine ℕ), 0), clients := twoBatches }
      twoBatchesMoves := by
  intro _
  refine ⟨⟨_, _, rfl, trivial, ?_⟩, ⟨_, _, rfl, trivial, ?_⟩, ⟨_, _, rfl, trivial, ?_⟩,
    ⟨trivial, ?_⟩, ⟨_, _, rfl, trivial, ?_⟩, ⟨_, _, rfl, trivial, ?_⟩, trivial⟩
  · exact ⟨by decide, by decide⟩
  · exact Call.within_of_reads (fun _ h => h) (by decide) le_rfl
  · exact ⟨by decide, by decide⟩
  · exact Call.within_of_reads (fun _ h => h) (by decide) le_rfl
  · exact Call.within_of_reads (fun _ h => h) (by decide) le_rfl
  · exact ⟨by decide, by decide⟩

omit [TextLib] in
theorem batches_serial_twoBatches :
    let _ := TextLib.ascii
    ∃ done : List (Demand × Circumstances),
      (twoBatches false).todo
          = done.map Prod.fst
            ++ (batchesAfter (new : Engine ℕ) 0 twoBatches twoBatchesMoves false).todo
        ∧ own false (order (new : Engine ℕ) 0 twoBatches twoBatchesMoves)
            ((order (new : Engine ℕ) 0 twoBatches twoBatchesMoves).map Prod.snd)
          = done.map (fun x => x.1.turn x.2)
        ∧ (batchesAfter (new : Engine ℕ) 0 twoBatches twoBatchesMoves false).got.map some
          = own false (order (new : Engine ℕ) 0 twoBatches twoBatchesMoves)
              ((Reference.language ℕ 0).answers ∅
                ((order (new : Engine ℕ) 0 twoBatches twoBatchesMoves).map Prod.snd)) := by
  intro _
  have hstart : StartsEmpty Config.default (new : Engine ℕ) :=
    StartsEmpty.memory (show newMemory Except.ok Config.default = .ok new from rfl)
  exact batches_serial hstart (fun i => by cases i <;> rfl) twoBatches_admits false

/-- **A batch on keys of its own is executed as if it were alone.** If it looks
nowhere but under some keys, and nothing else writes under them, its results are
those of a map that executes nothing but its lines, at the instants at which they
were executed, from an empty map – whatever the other batches and the background
tasks do in between. -/
theorem batch_isolated (hstart : StartsEmpty cfg e) (hnew : ∀ i, (batches i).got = [])
    (hrun : (service ι).Admits { state := (e, t), clients := batches } moves) {i : ι}
    {keys : Set GoString} (hnames : ∀ demand ∈ (batches i).todo, demand.Names R keys)
    (hbatches : ∀ j ≠ i, ∀ demand ∈ (batches j).todo, ∀ key ∈ keys, ¬ demand.Writes R key)
    (hothers : ∀ event, Move.other event ∈ moves → ∀ key ∈ keys, ¬ event.1.Writes R key) :
    ∃ done : List (Demand × Circumstances),
      (batches i).todo = done.map Prod.fst ++ (batchesAfter e t batches moves i).todo
        ∧ (batchesAfter e t batches moves i).got.map some
          = (Reference.language R cfg.defaultTTL).answers ∅
              (done.map (fun x => x.1.turn x.2)) := by
  obtain ⟨done, htodo, hdone⟩ := own_serial hrun i
  refine ⟨done, htodo, ((hstart.follows t).got_batches hnew hrun i).trans ?_⟩
  rw [← hdone]
  refine own_answers (Reference.AgreeOn keys) (admits_of_forall (fun _ _ => trivial) _ _)
    (fun _ _ => rfl) (fun ref alone event hevent _ hagree => ?_)
    (fun ref alone who event hevent hwho _ hagree key hkey => ?_)
  · obtain ⟨j, demand, k, hj, hmem, rfl⟩ | ⟨hnone, _⟩ := of_mem_serial hevent
    · obtain rfl := Option.some.inj hj
      exact hagree.turn (hnames demand hmem) k
    · cases hnone
  · refine Eq.trans ?_ (hagree key hkey)
    refine ref.lookup_turn (fun hwrites => ?_)
    obtain ⟨j, demand, k, rfl, hmem, rfl⟩ | ⟨_, hmove⟩ := of_mem_serial hevent
    · exact hbatches j (fun hj => hwho (congrArg some hj)) demand hmem key hkey
        (Demand.writes_turn hwrites)
    · exact hothers event hmove key hkey hwrites

omit [TextLib] in
theorem batch_isolated_twoBatches :
    let _ := TextLib.ascii
    ∃ done : List (Demand × Circumstances),
      (twoBatches true).todo
          = done.map Prod.fst
            ++ (batchesAfter (new : Engine ℕ) 0 twoBatches twoBatchesMoves true).todo
        ∧ (batchesAfter (new : Engine ℕ) 0 twoBatches twoBatchesMoves true).got.map some
          = (Reference.language ℕ 0).answers ∅ (done.map (fun x => x.1.turn x.2)) := by
  intro _
  have hstart : StartsEmpty Config.default (new : Engine ℕ) :=
    StartsEmpty.memory (show newMemory Except.ok Config.default = .ok new from rfl)
  have hset : parse ℕ (str "SET a 1 EX 5")
      = .ok { kind := kindSet, key := str "a", value := str "1", isNumber := true,
              ttl := 5000000000 } := by decide
  have hoops : parse ℕ (str "oops") = .error (.detail .unknown (str "oops")) := by decide
  have hget : parse ℕ (str "GET a") = .ok { kind := kindGet, key := str "a" } := by decide
  have hnames : ∀ demand ∈ (twoBatches true).todo, demand.Names ℕ {str "a"} := by
    intro demand hmem
    simp only [twoBatches, executeBatchStrings, Client.new, if_true, List.map_cons, List.map_nil,
      List.mem_cons, List.not_mem_nil, or_false] at hmem
    rcases hmem with rfl | rfl | rfl
    · intro cmd hcmd
      rw [hset] at hcmd
      cases hcmd
      exact ⟨by decide, fun _ => rfl⟩
    · intro cmd hcmd
      rw [hoops] at hcmd
      cases hcmd
    · intro cmd hcmd
      rw [hget] at hcmd
      cases hcmd
      exact ⟨by decide, fun _ => rfl⟩
  refine batch_isolated hstart (fun i => by cases i <;> rfl) twoBatches_admits hnames ?_ ?_
  · rintro (_ | _) hj demand hmem key rfl
    · simp only [twoBatches, executeBatch, Client.new, List.map_cons, List.map_nil,
        List.mem_cons, List.not_mem_nil, or_false, Bool.false_eq_true, if_false] at hmem
      rcases hmem with rfl | rfl
      · exact fun hw => absurd hw.2 (by decide)
      · exact fun hw => absurd hw.2 (by decide)
    · exact absurd rfl hj
  · intro event hmem key _
    simp only [twoBatchesMoves, List.mem_cons, List.not_mem_nil, or_false, reduceCtorEq, false_or,
      Move.other.injEq] at hmem
    subst hmem
    exact id

end Clients

end Engine

end WasmRedis
