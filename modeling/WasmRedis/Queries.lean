import WasmRedis.EngineInvariant

/-!
# GET WHERE

A query asks something of each entry (`satisfies`), and this is what a full
scan of the state would return: the entries that satisfy the query and have not
expired, in the order of their keys. `GetWhere` does not scan. It reads one of
the four structures of the index, sorts the keys it finds there, and looks each
of them up, removing the ones that have expired as it goes.

The two agree in every reachable engine (`getWhere_full_scan`). `Find` is
followed branch by branch to a selection from the map the index holds
(`Index.Holds.find_spec`); the loop of `GetWhere` is shown not to see its own
removals, since no key occurs twice (`collect_fst`).
-/

namespace WasmRedis

open GoString

/-! ## What a query asks -/

/-- The comparison an operator names, with the operand on the right. -/
def compares {L : Type} [LinearOrder L] (operator : GoString) (x operand : L) : Bool :=
  if operator = str "equals" then decide (x = operand)
  else if operator = str ">" then decide (operand < x)
  else if operator = str ">=" then decide (operand ≤ x)
  else if operator = str "<" then decide (x < operand)
  else if operator = str "<=" then decide (x ≤ operand)
  else false

theorem compares_equals {L : Type} [LinearOrder L] {operator : GoString}
    (h : operator = str "equals") (x y : L) : compares operator x y = true ↔ x = y := by
  rw [compares, if_pos h]
  exact decide_eq_true_iff

/-- A comparison in one order is the comparison in any order that reflects it. -/
theorem compares_congr {L L' : Type} [LinearOrder L] [LinearOrder L'] (operator : GoString)
    {x y : L} {x' y' : L'} (hlt : x < y ↔ x' < y') (hgt : y < x ↔ y' < x') :
    compares operator x y = compares operator x' y' := by
  have hle : x ≤ y ↔ x' ≤ y' := by rw [← not_lt, ← not_lt, hgt]
  have hge : y ≤ x ↔ y' ≤ x' := by rw [← not_lt, ← not_lt, hlt]
  have heq : x = y ↔ x' = y' := by rw [le_antisymm_iff, le_antisymm_iff, hle, hge]
  unfold compares
  simp only [hlt, hgt, hle, hge, heq]

variable {R : Type} [LinearOrder R] [Zero R] [Strconv R]

section Satisfies

variable (R)

/-- **What a query asks of an entry.** A key compares as a string; a text
operand asks for texts and a number operand for numbers; `contains` asks for
texts whatever the operand is. -/
def satisfies (field operator operand : GoString) (number : Bool) (entry : Entry) : Bool :=
  if operator = str "contains" then
    if field = str "key" then contains entry.key operand
    else !entry.isNumber && contains entry.value operand
  else if field = str "key" then compares operator entry.key operand
  else if number then
    entry.isNumber && compares operator (numberOf R entry.value) (numberOf R operand)
  else !entry.isNumber && compares operator entry.value operand

/-- The queries that are refused: the field or the operator is unknown, or the
operand of a query on values is flagged a number and is not a finite one. -/
def Refused (field operator operand : GoString) (number : Bool) : Prop :=
  field ≠ str "key" ∧ field ≠ str "value"
    ∨ operator ∉ Index.operators
    ∨ field = str "value" ∧ number = true ∧ Strconv.isFiniteNumber R operand = false

end Satisfies

/-- What a query asks of an indexed value, with its operand normalised. -/
def selects (field operator operand : GoString) (pivot : Value R) (key : GoString)
    (v : Value R) : Bool :=
  if operator = str "contains" then
    if field = str "key" then contains key operand
    else !v.number && contains v.text operand
  else if field = str "key" then compares operator key operand
  else decide (v.number = pivot.number) && compares operator v.rank pivot.rank

namespace Value

theorem rank_text_lt (a b : GoString) :
    (normalised R a false).rank < (normalised R b false).rank ↔ a < b := by
  simp [rank, normalised]

theorem rank_number_lt (a b : GoString) :
    (normalised R a true).rank < (normalised R b true).rank ↔ numberOf R a < numberOf R b := by
  simp [rank, normalised]

omit [Zero R] [Strconv R] in
/-- Texts rank below numbers. -/
theorem number_of_rank_le {a b : Value R} (h : a.rank ≤ b.rank) (ha : a.number = true) :
    b.number = true := by
  cases hb : b.number with
  | true => rfl
  | false =>
    refine absurd h (not_le.mpr ?_)
    unfold rank
    rw [ha, hb]
    exact Sum.Lex.inl_lt_inr _ _

omit [Zero R] [Strconv R] in
/-- Going up, the walk does not come back to the kind of the pivot. -/
theorem border_up {pivot a b : Value R} (hpa : pivot.rank ≤ a.rank) (hab : a.rank ≤ b.rank)
    (h : a.number ≠ pivot.number) : decide (b.number ≠ pivot.number) = true := by
  cases hp : pivot.number with
  | true => exact absurd ((number_of_rank_le hpa hp).trans hp.symm) h
  | false =>
    rw [hp, Bool.ne_false_iff] at h
    rw [number_of_rank_le hab h]
    rfl

omit [Zero R] [Strconv R] in
/-- Going down, the walk does not come back to the kind of the pivot. -/
theorem border_down {pivot a b : Value R} (hpa : a.rank ≤ pivot.rank) (hab : b.rank ≤ a.rank)
    (h : a.number ≠ pivot.number) : decide (b.number ≠ pivot.number) = true := by
  cases ha : a.number with
  | true => exact absurd (ha.trans (number_of_rank_le hpa ha).symm) h
  | false =>
    rw [ha] at h
    have hb : b.number = false := by
      rw [← Bool.not_eq_true]
      exact fun hb => by
        rw [number_of_rank_le hab hb] at ha
        exact Bool.noConfusion ha
    rw [hb]
    exact decide_eq_true h

end Value

/-- The index asks the same as the query. -/
theorem selects_normalised (field operator operand : GoString) (number : Bool)
    (entry : Entry) :
    selects field operator operand
        (normalised R operand (if field = str "key" then false else number)) entry.key
        (normalised R entry.value entry.isNumber)
      = satisfies R field operator operand number entry := by
  unfold selects satisfies
  split_ifs with hc hk hk hn
  · rfl
  · cases entry.isNumber <;> rfl
  · rfl
  · cases hv : entry.isNumber with
    | false =>
      rw [hn]
      rfl
    | true =>
      rw [hn]
      show (true && _) = (true && _)
      rw [compares_congr operator (Value.rank_number_lt _ _) (Value.rank_number_lt _ _)]
  · rw [Bool.not_eq_true] at hn
    cases hv : entry.isNumber with
    | true =>
      rw [hn]
      rfl
    | false =>
      rw [hn]
      show (true && _) = (true && _)
      rw [compares_congr operator (Value.rank_text_lt _ _) (Value.rank_text_lt _ _)]

/-! ## Find -/

namespace Index

variable {T : Type → Type} [OrderedTree T] {idx : Index R T}

/-- The keys of a value are those the map gives it. -/
theorem Holds.mem_holders (h : idx.Holds) (r : RangeOrder GoString) (v : Value R)
    (k : GoString) : k ∈ idx.holders r v ↔ idx.entries.lookup k = some v := by
  rw [← h.mem_inverted v k]
  unfold holders
  cases idx.inverted.lookup v with
  | none =>
    exact ⟨fun hk => absurd hk List.not_mem_nil, fun hk => absurd hk (Finset.notMem_empty k)⟩
  | some held => exact r.mem_list held k

omit [Zero R] [Strconv R] [OrderedTree T] in
theorem holders_nodup (r : RangeOrder GoString) (idx : Index R T) (v : Value R) :
    (idx.holders r v).Nodup := by
  unfold holders
  cases idx.inverted.lookup v with
  | none => exact List.nodup_nil
  | some held => exact r.nodup held

/-- Different values have different keys. -/
theorem Holds.holders_disjoint (h : idx.Holds) (r : RangeOrder GoString) {v w : Value R}
    (hne : v ≠ w) : List.Disjoint (idx.holders r v) (idx.holders r w) := by
  intro k hv hw
  rw [h.mem_holders] at hv hw
  rw [hv] at hw
  exact hne (Option.some.inj hw)

/-- What `Find` has to return: the keys it selects, each once and in order. -/
def Selection (idx : Index R T) (Q : GoString → Value R → Bool) (keys : List GoString) : Prop :=
  keys.Pairwise (· < ·) ∧ ∀ k, k ∈ keys ↔ ∃ v, idx.entries.lookup k = some v ∧ Q k v = true

omit [LinearOrder R] [Zero R] [Strconv R] [OrderedTree T] in
/-- Sorting makes a selection of the keys, in whatever order they were found. -/
theorem selection_sort {Q : GoString → Value R → Bool} {found : List GoString}
    (hnd : found.Nodup)
    (hmem : ∀ k, k ∈ found ↔ ∃ v, idx.entries.lookup k = some v ∧ Q k v = true) :
    idx.Selection Q (sortStrings found) :=
  ⟨sortStrings_strict hnd, fun k => by rw [mem_sortStrings, hmem]⟩

section Ranges

variable {α L : Type} [DecidableEq α] [LinearOrder L] {less : α → α → Bool} {rank : α → L}

/-- What a visitor finds at an item it does not stop at: at the pivot, a strict operator
finds nothing. -/
def foundAt (operator : GoString) (pivot : α) (g : α → List GoString) (x : α) : List GoString :=
  if (operator = str ">" || operator = str "<") && x = pivot then [] else g x

theorem foundAt_sublist (operator : GoString) (pivot : α) (g : α → List GoString) (x : α) :
    (foundAt operator pivot g x).Sublist (g x) := by
  unfold foundAt
  split_ifs
  · exact List.nil_sublist _
  · exact List.Sublist.refl _

omit [LinearOrder L] in
/-- This agrees with the comparison of the ranks. -/
theorem mem_foundAt {operator : GoString} {pivot x : α} {g : α → List GoString} {k : GoString}
    (hpivot : x = pivot ↔ rank x = rank pivot) :
    k ∈ foundAt operator pivot g x
      ↔ ¬ ((operator = str ">" ∨ operator = str "<") ∧ rank x = rank pivot) ∧ k ∈ g x := by
  unfold foundAt
  rw [← hpivot]
  split_ifs with hc
  · simp only [Bool.and_eq_true, Bool.or_eq_true, decide_eq_true_eq] at hc
    exact ⟨fun hk => absurd hk List.not_mem_nil, fun hk => absurd hc hk.1⟩
  · simp only [Bool.and_eq_true, Bool.or_eq_true, decide_eq_true_eq] at hc
    exact ⟨fun hk => ⟨hc, hk⟩, fun hk => hk.2⟩

/-- What is found at the items that a range selects, for a range that agrees with the
operator up to the pivot. -/
theorem foundAt_spec {t : T α} (ht : OrderedTree.Sorted rank t) {pivot : α} {operator : GoString}
    {stop p : α → Bool} {g : α → List GoString}
    (htie : ∀ x ∈ OrderedTree.items t, rank x = rank pivot → x = pivot)
    (hg : ∀ x, (g x).Nodup) (hdisj : ∀ x y, x ≠ y → List.Disjoint (g x) (g y))
    (hp : ∀ x ∈ OrderedTree.items t, p x = true
      ∧ ¬ ((operator = str ">" ∨ operator = str "<") ∧ rank x = rank pivot)
        ↔ compares operator (rank x) (rank pivot) = true)
    {l : List α} (hl : l.Perm (OrderedTree.items t)) :
    ((l.filter (fun x => p x && !stop x)).flatMap (foundAt operator pivot g)).Nodup
      ∧ ∀ k, k ∈ (l.filter (fun x => p x && !stop x)).flatMap (foundAt operator pivot g)
        ↔ ∃ x ∈ OrderedTree.items t, stop x = false ∧ compares operator (rank x) (rank pivot) = true
            ∧ k ∈ g x := by
  have hsub := foundAt_sublist operator pivot g
  refine ⟨OrderedTree.nodup_flatMap_filter (hl.nodup_iff.mpr ht.nodup)
    (fun x => (hg x).sublist (hsub x))
    (fun x y hne k hx hy => hdisj x y hne ((hsub x).subset hx) ((hsub y).subset hy)), fun k => ?_⟩
  have hmem : ∀ x ∈ OrderedTree.items t, k ∈ foundAt operator pivot g x
      ↔ ¬ ((operator = str ">" ∨ operator = str "<") ∧ rank x = rank pivot) ∧ k ∈ g x :=
    fun x hx => mem_foundAt ⟨fun h => by rw [h], htie x hx⟩
  simp only [List.mem_flatMap, List.mem_filter, Bool.and_eq_true, Bool.not_eq_true', hl.mem_iff]
  constructor
  · rintro ⟨x, ⟨hx, hpx, hs⟩, hk⟩
    obtain ⟨hnot, hkg⟩ := (hmem x hx).mp hk
    exact ⟨x, hx, hs, (hp x hx).mp ⟨hpx, hnot⟩, hkg⟩
  · rintro ⟨x, hx, hs, hc, hkg⟩
    obtain ⟨hpx, hnot⟩ := (hp x hx).mpr hc
    exact ⟨x, ⟨hx, hpx, hs⟩, (hmem x hx).mpr ⟨hnot, hkg⟩⟩

/-- **What the two tree walks find.** A walk starts at the pivot and goes up or
down as the operator says; a strict operator leaves the pivot out, and the
visitor stops at a border that no item past it crosses back. -/
theorem walk_spec [LawfulOrderedTree T] (hless : ∀ a b, less a b = true ↔ rank a < rank b) {t : T α}
    (ht : OrderedTree.Sorted rank t) (pivot : α) {operator : GoString} (stop : α → Bool)
    (g : α → List GoString) (visit : List GoString → α → List GoString × Bool)
    (hop : operator ∈ [str ">", str ">=", str "<", str "<="])
    (htie : ∀ x ∈ OrderedTree.items t, rank x = rank pivot → x = pivot)
    (hvisit : ∀ s x, visit s x = if stop x then (s, false)
      else if (operator = str ">" || operator = str "<") && x = pivot then (s, true)
      else (s ++ g x, true))
    (hup : ∀ a b, rank pivot ≤ rank a → rank a < rank b → stop a = true → stop b = true)
    (hdown : ∀ a b, rank a ≤ rank pivot → rank b < rank a → stop a = true → stop b = true)
    (hg : ∀ x, (g x).Nodup) (hdisj : ∀ x y, x ≠ y → List.Disjoint (g x) (g y)) :
    (if operator = str ">" ∨ operator = str ">=" then
        OrderedTree.ascendGreaterOrEqual less t pivot visit []
      else OrderedTree.descendLessOrEqual less t pivot visit []).Nodup
      ∧ ∀ k, k ∈ (if operator = str ">" ∨ operator = str ">=" then
            OrderedTree.ascendGreaterOrEqual less t pivot visit []
          else OrderedTree.descendLessOrEqual less t pivot visit [])
        ↔ ∃ x ∈ OrderedTree.items t, stop x = false ∧ compares operator (rank x) (rank pivot) = true
            ∧ k ∈ g x := by
  have hv : ∀ s x, visit s x
      = if stop x then (s, false) else (s ++ foundAt operator pivot g x, true) := by
    intro s x
    rw [hvisit, foundAt]
    split_ifs <;> simp
  have hne : ∀ x y : L, x ≤ y ∧ ¬ x = y ↔ x < y := fun x y => lt_iff_le_and_ne.symm
  have hne' : ∀ x y : L, y ≤ x ∧ ¬ x = y ↔ y < x := fun x y => by
    rw [eq_comm]
    exact hne y x
  simp only [List.mem_cons, List.not_mem_nil, or_false] at hop
  rcases hop with rfl | rfl | rfl | rfl
  · rw [if_pos (by decide), OrderedTree.ascendGreaterOrEqual_filter hless ht pivot stop _ hv hup]
    refine foundAt_spec ht htie hg hdisj (fun x _ => ?_) (List.Perm.refl _)
    rw [compares, if_neg (by decide), if_pos rfl, decide_eq_true_eq, decide_eq_true_eq, ← hne']
    simp
  · rw [if_pos (by decide), OrderedTree.ascendGreaterOrEqual_filter hless ht pivot stop _ hv hup]
    refine foundAt_spec ht htie hg hdisj (fun x _ => ?_) (List.Perm.refl _)
    rw [compares, if_neg (by decide), if_neg (by decide), if_pos rfl, decide_eq_true_eq]
    exact ⟨fun h => h.1, fun h => ⟨h, fun hs => absurd hs.1 (by decide)⟩⟩
  · rw [if_neg (by decide), OrderedTree.descendLessOrEqual_filter hless ht pivot stop _ hv hdown]
    refine foundAt_spec ht htie hg hdisj (fun x _ => ?_) (List.reverse_perm _)
    rw [compares, if_neg (by decide), if_neg (by decide), if_neg (by decide), if_pos rfl,
      decide_eq_true_eq, decide_eq_true_eq, ← hne]
    simp
  · rw [if_neg (by decide), OrderedTree.descendLessOrEqual_filter hless ht pivot stop _ hv hdown]
    refine foundAt_spec ht htie hg hdisj (fun x _ => ?_) (List.reverse_perm _)
    rw [compares, if_neg (by decide), if_neg (by decide), if_neg (by decide), if_neg (by decide),
      if_pos rfl, decide_eq_true_eq]
    exact ⟨fun h => h.1, fun h => ⟨h, fun hs => absurd hs.1 (by decide)⟩⟩

end Ranges

/-- The operators but `contains` and `equals` walk a tree. -/
theorem walks_of_mem {operator : GoString} (hop : operator ∈ operators)
    (hc : operator ≠ str "contains") (he : operator ≠ str "equals") :
    operator ∈ [str ">", str ">=", str "<", str "<="] := by
  unfold operators at hop
  simp only [List.mem_cons, List.not_mem_nil, or_false] at hop ⊢
  exact (hop.resolve_left he).resolve_left hc

/-- A query on keys that compares finds the keys it selects. -/
theorem Holds.find_key [LawfulOrderedTree T] (h : idx.Holds) {operator operand : GoString}
    (pivot : Value R) (hop : operator ∈ operators) (hc : operator ≠ str "contains")
    {visit : List GoString → GoString → List GoString × Bool}
    (hvisit : ∀ keys key, visit keys key
      = if operator = str ">" && key = operand || operator = str "<" && key = operand then
          (keys, true)
        else (keys ++ [key], true)) :
    idx.Selection (selects (str "key") operator operand pivot) (sortStrings
      (if operator = str "equals" then
        match idx.entries.lookup operand with
        | none => []
        | some _ => [operand]
      else if operator = str ">" ∨ operator = str ">=" then
        OrderedTree.ascendGreaterOrEqual lessKey idx.keys operand visit []
      else OrderedTree.descendLessOrEqual lessKey idx.keys operand visit [])) := by
  have hsel : ∀ k v, selects (str "key") operator operand pivot k v
      = compares operator k operand := fun k v => by
    rw [selects, if_neg hc, if_pos rfl]
  by_cases he : operator = str "equals"
  · rw [if_pos he]
    have hcmp : ∀ k, compares operator k operand = true ↔ k = operand :=
      fun k => compares_equals he k operand
    cases hk : idx.entries.lookup operand with
    | none =>
      refine selection_sort List.nodup_nil (fun k => ⟨fun hm => absurd hm List.not_mem_nil, ?_⟩)
      rintro ⟨v, hv, hq⟩
      rw [hsel, hcmp] at hq
      rw [hq, hk] at hv
      cases hv
    | some item =>
      refine selection_sort (List.nodup_singleton operand) (fun k => ?_)
      rw [List.mem_singleton]
      constructor
      · rintro rfl
        exact ⟨item, hk, by rw [hsel, hcmp]⟩
      · rintro ⟨v, _, hq⟩
        rwa [hsel, hcmp] at hq
  · rw [if_neg he]
    obtain ⟨hnd, hmem⟩ := walk_spec lessKey_iff h.keys_sorted operand (fun _ => false)
      (fun k => [k]) visit (walks_of_mem hop hc he) (fun x _ hx => hx) (fun keys key => by
        rw [hvisit]
        show _ = if (false = true) then _ else _
        rw [if_neg Bool.false_ne_true, Bool.and_or_distrib_right])
      (fun _ _ _ _ hs => hs) (fun _ _ _ _ hs => hs) (fun k => List.nodup_singleton k)
      (fun x y hne k hx hy =>
        hne ((List.mem_singleton.mp hx).symm.trans (List.mem_singleton.mp hy)))
    refine selection_sort hnd (fun k => ?_)
    rw [hmem]
    constructor
    · rintro ⟨x, hx, _, hcmp, hk⟩
      rw [List.mem_singleton] at hk
      obtain ⟨v, hv⟩ := (h.mem_keys x).mp hx
      exact ⟨v, hk ▸ hv, by rw [hsel, hk]; exact hcmp⟩
    · rintro ⟨v, hv, hq⟩
      rw [hsel] at hq
      exact ⟨k, (h.mem_keys k).mpr ⟨v, hv⟩, rfl, hq, List.mem_singleton.mpr rfl⟩

/-- A query on values that compares finds the keys it selects. -/
theorem Holds.find_value [LawfulOrderedTree T] (h : idx.Holds) (r : RangeOrder GoString)
    {operator : GoString} (operand : GoString) {pivot : Value R} (hpivot : pivot.Normal)
    (hop : operator ∈ operators)
    (hc : operator ≠ str "contains")
    {visit : List GoString → Value R → List GoString × Bool}
    (hvisit : ∀ keys item, visit keys item
      = if item.number ≠ pivot.number then (keys, false)
        else if (operator = str ">" || operator = str "<") && item = pivot then (keys, true)
        else (keys ++ idx.holders r item, true)) :
    idx.Selection (selects (str "value") operator operand pivot) (sortStrings
      (if operator = str "equals" then idx.holders r pivot
      else if operator = str ">" ∨ operator = str ">=" then
        OrderedTree.ascendGreaterOrEqual less idx.values pivot visit []
      else OrderedTree.descendLessOrEqual less idx.values pivot visit [])) := by
  have hsel : ∀ k v, selects (str "value") operator operand pivot k v
      = (decide (v.number = pivot.number) && compares operator v.rank pivot.rank) := fun k v => by
    rw [selects, if_neg hc, if_neg (by decide)]
  by_cases he : operator = str "equals"
  · rw [if_pos he]
    refine selection_sort (holders_nodup r idx pivot) (fun k => ?_)
    rw [h.mem_holders]
    have hq : ∀ v, selects (str "value") operator operand pivot k v = true
        ↔ v.number = pivot.number ∧ v.rank = pivot.rank := fun v => by
      rw [hsel, Bool.and_eq_true, decide_eq_true_eq, compares_equals he]
    constructor
    · exact fun hk => ⟨pivot, hk, (hq pivot).mpr ⟨rfl, rfl⟩⟩
    · rintro ⟨v, hv, hvq⟩
      rw [← (h.normal k v hv).eq_of_rank hpivot ((hq v).mp hvq).2]
      exact hv
  · rw [if_neg he]
    obtain ⟨hnd, hmem⟩ := walk_spec Value.less_iff_rank h.values_sorted pivot
      (fun item => decide (item.number ≠ pivot.number)) (fun item => idx.holders r item) visit
      (walks_of_mem hop hc he)
      (fun x hx hrank => by
        obtain ⟨k, hk⟩ := (h.mem_values x).mp hx
        exact (h.normal k x hk).eq_of_rank hpivot hrank)
      (fun keys item => by
        rw [hvisit]
        by_cases hn : item.number = pivot.number <;> simp [hn])
      (fun a b hpa hab hs => Value.border_up hpa hab.le (of_decide_eq_true hs))
      (fun a b hpa hab hs => Value.border_down hpa hab.le (of_decide_eq_true hs))
      (fun item => holders_nodup r idx item) (fun x y hne => h.holders_disjoint r hne)
    refine selection_sort hnd (fun k => ?_)
    rw [hmem]
    constructor
    · rintro ⟨x, hx, hs, hcmp, hk⟩
      rw [h.mem_holders] at hk
      refine ⟨x, hk, ?_⟩
      rw [hsel, hcmp, Bool.and_true]
      rw [decide_eq_false_iff_not, not_not] at hs
      exact decide_eq_true hs
    · rintro ⟨v, hv, hq⟩
      rw [hsel, Bool.and_eq_true, decide_eq_true_eq] at hq
      exact ⟨v, (h.mem_values v).mpr ⟨k, hv⟩, decide_eq_false (not_not.mpr hq.1), hq.2,
        (h.mem_holders r v k).mpr hv⟩

omit [LinearOrder R] [Zero R] in
/-- A query that is not refused has a known field, and an operand that
`scalar` accepts. -/
theorem not_refused {field operator operand : GoString} {number : Bool}
    (h : ¬ Refused R field operator operand number) :
    (field = str "key" ∨ field = str "value") ∧ operator ∈ operators
      ∧ ((if field = str "key" then false else number) = true →
          Strconv.isFiniteNumber R operand = true) := by
  unfold Refused at h
  rw [not_or, not_or, not_not, ← or_iff_not_and_not] at h
  obtain ⟨hfield, hop, hnum⟩ := h
  refine ⟨hfield, hop, fun hn => ?_⟩
  by_contra hfin
  rw [Bool.not_eq_true] at hfin
  by_cases hk : field = str "key"
  · rw [if_pos hk] at hn
    exact Bool.noConfusion hn
  · rw [if_neg hk] at hn
    exact hnum ⟨hfield.resolve_left hk, hn, hfin⟩

/-- A refused query is an error of `Find`. -/
theorem find_refused (r : RangeOrder GoString) (idx : Index R T)
    {field operator operand : GoString} {number : Bool}
    (h : Refused R field operator operand number) :
    ∃ err, idx.find r field operator operand number = .error err := by
  unfold find
  by_cases hfield : field ≠ str "key" ∧ field ≠ str "value"
  · exact ⟨_, if_pos hfield⟩
  rw [if_neg hfield]
  by_cases hop : operator ∉ operators
  · exact ⟨_, if_pos hop⟩
  rw [if_neg hop]
  have hkv : str "value" ≠ str "key" := by decide
  obtain ⟨rfl, rfl, hfin⟩ := (h.resolve_left hfield).resolve_left hop
  refine ⟨.new (str "nombre fini requis"), ?_⟩
  dsimp only
  rw [if_neg hkv, scalar_eq, hfin]
  rfl

/-- **What `Find` returns**: the keys the query selects from the map the index
holds, each once and in order. -/
theorem Holds.find_spec [LawfulOrderedTree T] (h : idx.Holds) (r : RangeOrder GoString)
    {field operator operand : GoString} {number : Bool}
    (hq : ¬ Refused R field operator operand number) :
    ∃ keys, idx.find r field operator operand number = .ok keys ∧
      idx.Selection (selects field operator operand
        (normalised R operand (if field = str "key" then false else number))) keys := by
  obtain ⟨hfield, hop, hnum⟩ := not_refused hq
  have hkv : str "value" ≠ str "key" := by decide
  unfold find
  rw [if_neg (by rw [← or_iff_not_and_not]; exact hfield), if_neg (not_not.mpr hop)]
  dsimp only
  rw [scalar_ok hnum]
  refine ⟨_, rfl, ?_⟩
  by_cases hc : operator = str "contains"
  · -- a full scan of the map
    rw [if_pos hc]
    obtain ⟨hnd, hmem⟩ := GoMap.rangeFold_collect r idx.entries (fun key item =>
      field = str "key" && contains key operand
        || field = str "value" && !item.number && contains item.text operand)
    refine selection_sort hnd (fun k => ?_)
    rw [hmem]
    refine exists_congr (fun v => and_congr_right (fun _ => iff_of_eq (congrArg (· = true) ?_)))
    rw [selects, if_pos hc]
    rcases hfield with rfl | rfl
    · rw [if_pos rfl, decide_eq_true rfl, decide_eq_false hkv.symm]
      simp
    · rw [if_neg hkv, decide_eq_true rfl, decide_eq_false hkv]
      simp
  · rw [if_neg hc]
    rcases hfield with rfl | rfl
    · rw [if_pos rfl]
      exact h.find_key _ hop hc (fun _ _ => rfl)
    · rw [if_neg hkv]
      exact h.find_value r operand (normalised_normal operand _) hop hc (fun _ _ => rfl)

end Index

/-! ## The loop of GetWhere -/

namespace Engine

omit [Zero R] [Strconv R] in
/-- **The loop does not see its own removals**: what it collects is what was
visible at the keys before it began. -/
theorem collect_fst (now : Time) {keys : List GoString} (hnd : keys.Nodup) (found : List Entry)
    (e : Engine R) (hkeys : ∀ k ∈ keys, ∃ entry, e.state.lookup k = some entry) :
    (collect now keys (found, e)).1 = found ++ keys.filterMap (visible now e.state) := by
  induction keys generalizing found e with
  | nil => rw [collect, List.filterMap_nil, List.append_nil]
  | cons key keys ih =>
    obtain ⟨hkey, hnd⟩ := List.nodup_cons.mp hnd
    obtain ⟨entry, hk⟩ := hkeys key List.mem_cons_self
    have hrest : ∀ k ∈ keys, ∃ entry, e.state.lookup k = some entry :=
      fun k hkm => hkeys k (List.mem_cons_of_mem _ hkm)
    unfold collect
    rw [List.filterMap_cons, visible_of_lookup hk, hk, Option.getD_some]
    dsimp only
    cases hx : expired entry now with
    | false =>
      show (collect now keys (found ++ [entry], e)).1 = found ++ entry :: _
      rw [ih hnd _ e hrest, List.append_assoc]
      rfl
    | true =>
      show (collect now keys (found, if e.closed then e else e.remove key)).1 = found ++ _
      cases hcl : e.closed with
      | true => exact ih hnd found e hrest
      | false =>
        -- the other keys are looked up as before
        have hsame : ∀ k ∈ keys, (e.remove key).state.lookup k = e.state.lookup k :=
          fun k hkm => by
            have hne : k ≠ key := fun h => hkey (by rwa [h] at hkm)
            rw [remove_state, Finmap.lookup_erase_ne hne]
        show (collect now keys (found, e.remove key)).1 = _
        rw [ih hnd found _ (fun k hkm => by rw [hsame k hkm]; exact hrest k hkm)]
        exact congrArg _ (List.filterMap_congr (fun k hkm =>
          Expiry.alive_of_lookup_eq (hsame k hkm)))

omit [LinearOrder R] [Zero R] in
/-- The entries visible at increasing keys are in the order of their keys. -/
theorem pairwise_filterMap_visible {state : State} (hgood : state.Good R) (now : Time)
    {keys : List GoString} (hkeys : keys.Pairwise (· < ·)) :
    (keys.filterMap (visible now state)).Pairwise (fun a b => a.key < b.key) := by
  rw [List.pairwise_filterMap]
  refine hkeys.imp (fun {k k'} hlt a ha b hb => ?_)
  rw [(hgood k a (Expiry.alive_eq_some_iff.mp ha).1).1,
    (hgood k' b (Expiry.alive_eq_some_iff.mp hb).1).1]
  exact hlt

/-- **GET WHERE is a full scan.** In every reachable engine the index knows
exactly the keys of the state, each with the normalised value of its entry. A
query is refused, and leaves the engine as it is, exactly if its field or its
operator is unknown or its operand should be a finite number and is not; any
other query returns the unexpired entries that satisfy it, each once and in
strictly increasing order of the keys. -/
theorem getWhere_full_scan {e : Engine R} (h : e.Reachable) :
    e.index.Mirrors e.state ∧
    ∀ (r : RangeOrder GoString) (field operator operand : GoString) (number : Bool) (now : Time),
      (Refused R field operator operand number →
        ∃ err, e.getWhere r field operator operand number now = (.error err, e)) ∧
      (¬ Refused R field operator operand number → ∃ entries,
        (e.getWhere r field operator operand number now).1 = .ok entries
          ∧ entries.Pairwise (fun a b => a.key < b.key)
          ∧ ∀ entry, entry ∈ entries ↔ e.state.lookup entry.key = some entry
              ∧ expired entry now = false
              ∧ satisfies R field operator operand number entry = true) := by
  obtain ⟨hgood, hmirrors⟩ := h.sound
  refine ⟨hmirrors, fun r field operator operand number now => ⟨fun hrefused => ?_, fun hq => ?_⟩⟩
  · obtain ⟨err, herr⟩ := Index.find_refused r e.index hrefused
    refine ⟨err, ?_⟩
    unfold getWhere
    rw [herr]
  · obtain ⟨keys, hfind, hsorted, hmem⟩ := hmirrors.holds.find_spec r hq
    -- the index selects a key exactly if its entry satisfies the query
    have hkey : ∀ k, k ∈ keys ↔ ∃ entry, e.state.lookup k = some entry
        ∧ satisfies R field operator operand number entry = true := by
      intro k
      rw [hmem, hmirrors.entries]
      cases hk : e.state.lookup k with
      | none => exact ⟨fun ⟨_, hv, _⟩ => (nomatch hv), fun ⟨_, hv, _⟩ => (nomatch hv)⟩
      | some entry =>
        have hkk := (hgood k entry hk).1
        simp only [Option.map_some, Option.some.injEq, exists_eq_left']
        rw [← hkk, selects_normalised]
    have hnd : keys.Nodup := hsorted.imp (fun {a b} hab => ne_of_lt hab)
    refine ⟨keys.filterMap (visible now e.state), ?_, pairwise_filterMap_visible hgood now hsorted,
      fun entry => ?_⟩
    · unfold getWhere
      rw [hfind]
      dsimp only
      rw [collect_fst now hnd [] e (fun k hk => by
        obtain ⟨entry, hlook, _⟩ := (hkey k).mp hk
        exact ⟨entry, hlook⟩), List.nil_append]
    · rw [List.mem_filterMap]
      constructor
      · rintro ⟨k, hk, hvis⟩
        obtain ⟨hlook, hx⟩ := Expiry.alive_eq_some_iff.mp hvis
        obtain ⟨entry', hlook', hsat⟩ := (hkey k).mp hk
        rw [hlook] at hlook'
        cases hlook'
        rw [(hgood k entry hlook).1]
        exact ⟨hlook, hx, hsat⟩
      · rintro ⟨hlook, hx, hsat⟩
        exact ⟨entry.key, (hkey entry.key).mpr ⟨entry, hlook, hsat⟩,
          Expiry.alive_eq_some_iff.mpr ⟨hlook, hx⟩⟩

/-- An engine that holds two numbers and a text. -/
def sample : Engine ℕ :=
  system.after new
    [.set (str "b") (str "12") true 0 0, .set (str "a") (str "7") true 0 0,
      .set (str "c") (str "12") false 0 0]

/-- A query on the numbers above nine, of the sample. -/
theorem getWhere_full_scan_sample : ∃ entries,
    (sample.getWhere RangeOrder.sorted (str "value") (str ">") (str "9") true 0).1 = .ok entries
      ∧ entries.Pairwise (fun a b => a.key < b.key)
      ∧ ∀ entry, entry ∈ entries ↔ sample.state.lookup entry.key = some entry
          ∧ expired entry 0 = false
          ∧ satisfies ℕ (str "value") (str ">") (str "9") true entry = true := by
  refine ((getWhere_full_scan ⟨new, _, Opened.new, rfl⟩).2 RangeOrder.sorted (str "value")
    (str ">") (str "9") true 0).2 ?_
  unfold Refused
  decide

end Engine

end WasmRedis
