import WasmRedis.Queries

/-!
# The parser and the engine agree

What a number is, which fields and which operators there are, which kinds of
command: the parser decides each of these, and so do `set`, the index, `Find`,
`Execute` and the replay of the journal, every one with a test of its own.

`Accepted` lists the commands the parser lets through, form by form
(`parse_accepted`). Each of them passes the tests behind it: of the errors of
the engine only two are left, the key that is not there and the deadline that
cannot be stored (`agreement`).
-/

namespace WasmRedis

open GoString

/-! ## What the parser lets through -/

section Accepted

variable (R : Type) [Strconv R]

/-- **The commands `Parse` accepts**, form by form. -/
inductive Accepted : Command → Prop where
  /-- `SET key value`, with `EX seconds` or without. -/
  | set (key value : GoString) (number : Bool) (ttl : ℤ) : 0 ≤ ttl →
      (number = true → Strconv.isFiniteNumber R value = true) →
      Accepted { kind := kindSet, key := key, value := value, isNumber := number, ttl := ttl }
  /-- `GET key`. -/
  | get (key : GoString) : Accepted { kind := kindGet, key := key }
  /-- `DELETE key`, or `DEL key`. -/
  | delete (key : GoString) : Accepted { kind := kindDelete, key := key }
  /-- `PING`. -/
  | ping : Accepted { kind := kindPing }
  /-- `GET WHERE field operator operand`. -/
  | getWhere (field operator operand : GoString) (number : Bool) :
      field = str "key" ∨ field = str "value" → operator ∈ Index.operators →
      (number = true → Strconv.isFiniteNumber R operand = true) →
      Accepted { kind := kindGetWhere, field := field, operator := operator, operand := operand,
                 operandIsNumber := number }

variable {R}

/-- What the parser types as a number is a finite one. -/
theorem isFiniteNumber_of_numeric {value : Token} (h : numeric R value = true) :
    Strconv.isFiniteNumber R value.text = true := by
  unfold numeric at h
  split_ifs at h
  exact h

variable [TextLib]

theorem parseGetWhere_accepted {args : List Token} {cmd : Command}
    (h : parseGetWhere R args = .ok cmd) : Accepted R cmd := by
  unfold parseGetWhere at h
  split at h
  · dsimp only at h
    split_ifs at h with hfield hop
    cases h
    refine Accepted.getWhere _ _ _ _ ?_ hop (fun hnum => ?_)
    · by_contra hne
      exact hfield (not_or.mp hne)
    · rw [Bool.and_eq_true] at hnum
      exact isFiniteNumber_of_numeric hnum.2
  · cases h

theorem parseSet_accepted {args : List Token} {cmd : Command} (h : parseSet R args = .ok cmd) :
    Accepted R cmd := by
  unfold parseSet at h
  split at h
  · cases h
    exact Accepted.set _ _ _ 0 le_rfl isFiniteNumber_of_numeric
  · unfold parseExpiration at h
    split_ifs at h
    split at h
    · cases h
    · split_ifs at h with hle
      cases h
      exact Accepted.set _ _ _ _ (not_le.mp hle).le isFiniteNumber_of_numeric
  · cases h

/-- **What `Parse` accepts is one of these.** -/
theorem parse_accepted {input : GoString} {cmd : Command} (h : parse R input = .ok cmd) :
    Accepted R cmd := by
  unfold parse at h
  cases hsplit : split input with
  | error err =>
    rw [hsplit] at h
    cases h
  | ok args =>
    rw [hsplit] at h
    cases args with
    | nil => cases h
    | cons name rest =>
      dsimp only at h
      generalize TextLib.toUpper name.text = kind at h
      by_cases hwhere : kind = kindGet ∧ isGetWhere (name :: rest) = true
      · rw [if_pos hwhere] at h
        exact parseGetWhere_accepted h
      rw [if_neg hwhere] at h
      by_cases hset : kind = kindSet
      · rw [if_pos hset] at h
        exact parseSet_accepted h
      rw [if_neg hset] at h
      by_cases hkey : kind = kindGet ∨ kind = kindDelete ∨ kind = str "DEL"
      · rw [if_pos hkey] at h
        split at h
        · cases h
          obtain rfl | rfl | rfl := hkey
          · exact Accepted.get _
          · exact Accepted.delete _
          · exact Accepted.delete _
        · cases h
      rw [if_neg hkey] at h
      by_cases hping : kind = kindPing
      · rw [if_pos hping] at h
        split at h
        · cases h
          exact hping ▸ Accepted.ping
        · cases h
      rw [if_neg hping] at h
      cases h

end Accepted

/-! ## What the engine does with it -/

variable {R : Type} [LinearOrder R] [Zero R] [Strconv R]

/-- The tests that read a number agree: the index takes what passes the test of
the parser. -/
theorem Index.exists_set (idx : Index R) (key : GoString) {value : GoString} {number : Bool}
    (h : number = true → Strconv.isFiniteNumber R value = true) :
    ∃ idx', idx.set key value number = .ok idx' :=
  ⟨_, Index.set_of_scalar (scalar_ok h)⟩

namespace Engine

variable {e : Engine R}

/-- The deadline that a duration asks for does not survive the 64 bits it is
stored in. -/
def OutOfRange (e : Engine R) (ttl : ℤ) (now : Time) : Prop :=
  0 < (if ttl = 0 then e.cfg.defaultTTL else ttl)
    ∧ Time.unix (Time.unixNano (now + if ttl = 0 then e.cfg.defaultTTL else ttl))
      ≠ now + if ttl = 0 then e.cfg.defaultTTL else ttl

/-- **`set` after its other tests** fails for a deadline out of range, and for
nothing else. -/
theorem set_accepted (hopen : e.closed = false) (key : GoString) {value : GoString}
    {number : Bool} {ttl : ℤ} (httl : 0 ≤ ttl)
    (hnum : number = true → Strconv.isFiniteNumber R value = true) (now : Time) :
    (e.set key value number ttl now).1 = none
      ∨ (e.set key value number ttl now).1
          = some (.new (str "date d'expiration hors des limites du stockage"))
        ∧ e.OutOfRange ttl now := by
  have hbad : ¬ (number && !Strconv.isFiniteNumber R value) = true := by
    simpa using hnum
  obtain ⟨index, hidx⟩ := e.index.exists_set key hnum
  unfold set OutOfRange
  rw [if_neg (not_lt.mpr httl), if_neg hbad, hopen, if_neg Bool.false_ne_true]
  dsimp only
  generalize (if ttl = 0 then e.cfg.defaultTTL else ttl) = effective
  by_cases hrange : 0 < effective
      ∧ Time.unix (Time.unixNano (deadline effective now)) ≠ deadline effective now
  · refine Or.inr ⟨by rw [if_pos hrange], hrange.1, ?_⟩
    obtain ⟨hpos, hne⟩ := hrange
    rwa [deadline, if_pos hpos] at hne
  · rw [if_neg hrange, hidx]
    exact Or.inl rfl

omit [Zero R] [Strconv R] in
/-- **A GET** fails for a key that is not visible, and for nothing else. -/
theorem getEntry_error (key : GoString) (now : Time) :
    errorOf (e.getEntry key now).1 = none
      ∨ errorOf (e.getEntry key now).1 = some .notFound ∧ visible now e.state key = none := by
  unfold getEntry
  cases hk : e.state.lookup key with
  | none => exact Or.inr ⟨rfl, visible_of_none hk⟩
  | some entry =>
    rw [visible_of_lookup hk]
    dsimp only
    cases expired entry now with
    | true => exact Or.inr ⟨rfl, rfl⟩
    | false => exact Or.inl rfl

/-- **`Find` takes every query the parser accepts.** -/
theorem find_accepted (hs : e.Sound) (r : RangeOrder GoString)
    {field operator operand : GoString} {number : Bool}
    (hfield : field = str "key" ∨ field = str "value") (hop : operator ∈ Index.operators)
    (hnum : number = true → Strconv.isFiniteNumber R operand = true) :
    ∃ keys, e.index.find r field operator operand number = .ok keys := by
  have hq : ¬ Refused R field operator operand number := by
    rintro (⟨hkey, hvalue⟩ | hunknown | ⟨_, hn, hfin⟩)
    · exact hfield.elim hkey hvalue
    · exact hunknown hop
    · rw [hnum hn] at hfin
      exact Bool.noConfusion hfin
  obtain ⟨keys, hfind, _⟩ := hs.mirrors.holds.find_spec r hq
  exact ⟨keys, hfind⟩

/-- The error of a command is that of the operation behind it. -/
theorem execute_err (r : RangeOrder GoString) (e : Engine R) (cmd : Command) (now : Time) :
    (e.execute r cmd now).1.err =
      if cmd.kind = kindSet then (e.set cmd.key cmd.value cmd.isNumber cmd.ttl now).1
      else if cmd.kind = kindGet then errorOf (e.getEntry cmd.key now).1
      else if cmd.kind = kindDelete then (e.delete cmd.key).1
      else if cmd.kind = kindPing then none
      else if cmd.kind = kindGetWhere then
        errorOf (e.getWhere r cmd.field cmd.operator cmd.operand cmd.operandIsNumber now).1
      else some .unknown := by
  unfold execute
  split_ifs
  · obtain ⟨_ | err, e'⟩ := e.set cmd.key cmd.value cmd.isNumber cmd.ttl now <;> rfl
  · obtain ⟨err | entry, e'⟩ := e.getEntry cmd.key now <;> rfl
  · obtain ⟨_ | err, e'⟩ := e.delete cmd.key <;> rfl
  · rfl
  · obtain ⟨err | entries, e'⟩ :=
      e.getWhere r cmd.field cmd.operator cmd.operand cmd.operandIsNumber now <;> rfl
  · rfl

/-- **Parser and engine agree.** A command that `Parse` accepts, executed by a
reachable engine that is open, at any reading of the clock, fails only where a
GET finds no key or a SET asks for a deadline out of range. The index takes its
value, `Find` takes its query, `Execute` knows its kind, and a replay takes all
that it records. -/
theorem agreement [TextLib] {input : GoString} {cmd : Command}
    (hparse : parse R input = .ok cmd) (hreach : e.Reachable) (hopen : e.closed = false)
    (r : RangeOrder GoString) (now : Time) :
    ((e.execute r cmd now).1.err = none
      ∨ ((e.execute r cmd now).1.err = some .notFound ∧ cmd.kind = kindGet
        ∧ visible now e.state cmd.key = none)
      ∨ ((e.execute r cmd now).1.err
          = some (.new (str "date d'expiration hors des limites du stockage"))
        ∧ cmd.kind = kindSet ∧ e.OutOfRange cmd.ttl now))
    ∧ (cmd.kind = kindSet → ∃ index, e.index.set cmd.key cmd.value cmd.isNumber = .ok index)
    ∧ (cmd.kind = kindGetWhere → ∃ keys,
        e.index.find r cmd.field cmd.operator cmd.operand cmd.operandIsNumber = .ok keys)
    ∧ cmd.kind ∈ [kindSet, kindGet, kindDelete, kindPing, kindGetWhere]
    ∧ ∃ ops, (e.execute r cmd now).2.buffer = e.buffer ++ ops
        ∧ ∀ op ∈ ops, ∀ state, ∃ state', applyOp R state op = .ok state' := by
  have hrecorded : ∃ ops, (e.execute r cmd now).2.buffer = e.buffer ++ ops
      ∧ ∀ op ∈ ops, ∀ state, ∃ state', applyOp R state op = .ok state' := by
    have hchanges : Changes now now e (e.execute r cmd now).2 := execute_changes le_rfl le_rfl
    obtain ⟨ops, hbuf, hvalid⟩ := hchanges.recorded
    exact ⟨ops, hbuf, fun op hop state => ⟨_, (hvalid op hop).applyOp state⟩⟩
  rw [execute_err]
  cases parse_accepted hparse with
  | set key value number ttl httl hnum =>
    refine ⟨?_, fun _ => e.index.exists_set key hnum, nofun, by simp, hrecorded⟩
    rw [if_pos rfl]
    obtain hok | ⟨herr, hrange⟩ := set_accepted hopen key httl hnum now
    · exact Or.inl hok
    · exact Or.inr (Or.inr ⟨herr, rfl, hrange⟩)
  | get key =>
    refine ⟨?_, nofun, nofun, by simp, hrecorded⟩
    rw [if_neg nofun, if_pos rfl]
    obtain hok | ⟨herr, hgone⟩ := getEntry_error (e := e) key now
    · exact Or.inl hok
    · exact Or.inr (Or.inl ⟨herr, rfl, hgone⟩)
  | delete key =>
    refine ⟨Or.inl ?_, nofun, nofun, by simp, hrecorded⟩
    rw [if_neg nofun, if_neg nofun, if_pos rfl, delete, hopen]
    rfl
  | ping =>
    refine ⟨Or.inl ?_, nofun, nofun, by simp, hrecorded⟩
    rw [if_neg nofun, if_neg nofun, if_neg nofun, if_pos rfl]
  | getWhere field operator operand number hfield hop hnum =>
    obtain ⟨keys, hfind⟩ := find_accepted hreach.sound r hfield hop hnum
    refine ⟨Or.inl ?_, nofun, fun _ => ⟨keys, hfind⟩, by simp, hrecorded⟩
    rw [if_neg nofun, if_neg nofun, if_neg nofun, if_neg nofun, if_pos rfl]
    show errorOf (e.getWhere r field operator operand number now).1 = none
    unfold getWhere
    rw [hfind]
    rfl

/-- An engine over an empty storage, of which one key has been set. -/
def oneKey : Engine ℕ :=
  system.after { (new : Engine ℕ) with store := some Storage.empty, cfg := Config.default }
    [.set (str "k") (str "x") false 0 1]

/-- A SET of that key in the words of a client: it succeeds, it records one operation, and
a replay takes the operation whatever the state. -/
theorem agreement_set :
    let _ := TextLib.ascii
    ∃ cmd, parse ℕ (str "set k 12 EX 5") = .ok cmd
      ∧ (oneKey.execute RangeOrder.sorted cmd 2).1.err = none
      ∧ ∃ op, (oneKey.execute RangeOrder.sorted cmd 2).2.buffer = oneKey.buffer ++ [op]
        ∧ ∀ state, ∃ state', applyOp ℕ state op = .ok state' := by
  intro _
  have hparse : parse ℕ (str "set k 12 EX 5")
      = .ok { kind := kindSet, key := str "k", value := str "12", isNumber := true,
              ttl := 5000000000 } := by decide
  have hopened : Opened
      { (new : Engine ℕ) with store := some Storage.empty, cfg := Config.default } :=
    Opened.withStorage (show newWithStorage Except.ok (some Storage.empty) Config.default
      RestoreOrders.sorted (fun _ => 0) {} = .ok _ from rfl)
  obtain ⟨_, _, _, _, ops, hbuffer, hreplayed⟩ :=
    agreement hparse (⟨_, _, hopened, rfl⟩ : oneKey.Reachable) rfl RangeOrder.sorted 2
  have hops : ops.length = 1 := by
    have hlength := congrArg List.length hbuffer
    rw [List.length_append] at hlength
    exact Nat.add_left_cancel (hlength.symm.trans (by decide +kernel))
  obtain ⟨op, rfl⟩ := List.length_eq_one_iff.mp hops
  exact ⟨_, hparse, by decide +kernel, op, hbuffer, hreplayed op (List.mem_singleton_self op)⟩

end Engine

end WasmRedis
