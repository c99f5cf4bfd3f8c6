import WasmRedis.Foundation.JsonString

/-!
# Request targets

The target of an HTTP request is a path and a query, cut apart at the first `?`. A path
is made of segments and a query of pairs, and what stands in either is escaped, so that
`%` and the separators mean what they should.

This module defines what a client and a server do with targets: the client escapes
(`encodeURIComponent`), the server splits and undoes the escapes (`segments`,
`parseQuery`). An escaped text is read back as the text, whatever it is made of
(`unescape_encode`); a text with nothing to escape is left as it is, and a query of such
texts is read back as its pairs (`parseQuery_query`).
-/

namespace Targets

open GoString

/-! ## Escapes -/

/-- The bytes that are not escaped: letters, digits and some punctuation. -/
def isKept (b : UInt8) : Bool :=
  decide (48 ≤ b ∧ b ≤ 57) || decide (65 ≤ b ∧ b ≤ 90) || decide (97 ≤ b ∧ b ≤ 122)
    || List.elem b (str "-_.!~*'()")

/-- A text of which nothing is escaped. -/
def Plain (s : GoString) : Prop := ∀ b ∈ s, isKept b = true

instance (s : GoString) : Decidable (Plain s) :=
  decidable_of_iff (s.all isKept = true) List.all_eq_true

/-- A hexadecimal digit of an escape. -/
def upperDigit (n : ℕ) : UInt8 := UInt8.ofNat (if n < 10 then 48 + n else 55 + n)

/-- The escape of a byte. -/
def escape (b : UInt8) : GoString := [37, upperDigit (b.toNat / 16), upperDigit (b.toNat % 16)]

/-- `encodeURIComponent(s)`, on the bytes of a text. -/
def encodeURIComponent (s : GoString) : GoString :=
  s.flatMap (fun b => if isKept b then [b] else escape b)

/-- `url.QueryUnescape(s)` in a query, `url.PathUnescape(s)` elsewhere; `none` is an
error. -/
def unescape (query : Bool) : GoString → Option GoString
  | [] => some []
  | b :: s =>
    if b = 37 then
      match s with
      | high :: low :: rest =>
        (Json.hexValue high).bind fun h => (Json.hexValue low).bind fun l =>
          (unescape query rest).map (UInt8.ofNat (16 * h + l) :: ·)
      | _ => none
    else (unescape query s).map ((if query && b = 43 then 32 else b) :: ·)

theorem hexValue_upperDigit : ∀ n < 16, Json.hexValue (upperDigit n) = some n := by decide

theorem ne_of_isKept {b c : UInt8} (h : isKept b = true) (hc : isKept c = false) : b ≠ c := by
  rintro rfl
  rw [h] at hc
  cases hc

theorem Plain.not_mem {s : GoString} (h : Plain s) {c : UInt8} (hc : isKept c = false) : c ∉ s :=
  fun hmem => ne_of_isKept (h c hmem) hc rfl

/-- A byte that is not escaped is read back. -/
theorem unescape_kept (query : Bool) {b : UInt8} (h : isKept b = true) (s : GoString) :
    unescape query (b :: s) = (unescape query s).map (b :: ·) := by
  have hpercent : b ≠ 37 := ne_of_isKept h (by decide)
  have hplus : b ≠ 43 := ne_of_isKept h (by decide)
  rw [unescape.eq_def]
  dsimp only
  rw [if_neg hpercent, if_neg (by simp [hplus])]

/-- And so is one that is escaped. -/
theorem unescape_escape (query : Bool) (b : UInt8) (s : GoString) :
    unescape query (escape b ++ s) = (unescape query s).map (b :: ·) := by
  have hhigh : b.toNat / 16 < 16 := by
    have := b.toNat_lt
    omega
  have hbyte : UInt8.ofNat (16 * (b.toNat / 16) + b.toNat % 16) = b := by
    rw [Nat.div_add_mod, UInt8.ofNat_toNat]
  show unescape query (37 :: upperDigit _ :: upperDigit _ :: s) = _
  rw [unescape, if_pos rfl, hexValue_upperDigit _ hhigh,
    hexValue_upperDigit _ (Nat.mod_lt _ (by decide)), Option.bind_some, Option.bind_some, hbyte]

/-- **An escaped text is read back**, in a path and in a query. -/
theorem unescape_encode (query : Bool) (s : GoString) :
    unescape query (encodeURIComponent s) = some s := by
  induction s with
  | nil => rfl
  | cons b s ih =>
    show unescape query ((if isKept b then [b] else escape b) ++ encodeURIComponent s) = _
    cases hkept : isKept b with
    | true =>
      rw [if_pos rfl, List.singleton_append, unescape_kept query hkept, ih, Option.map_some]
    | false =>
      rw [if_neg Bool.false_ne_true, unescape_escape, ih, Option.map_some]

/-- A text of which nothing is escaped is its own escape. -/
theorem encodeURIComponent_plain {s : GoString} (h : Plain s) : encodeURIComponent s = s := by
  induction s with
  | nil => rfl
  | cons b s ih =>
    obtain ⟨hb, hs⟩ := List.forall_mem_cons.mp h
    show (if isKept b then [b] else escape b) ++ encodeURIComponent s = _
    rw [if_pos hb, ih hs, List.singleton_append]

theorem unescape_plain (query : Bool) {s : GoString} (h : Plain s) : unescape query s = some s := by
  have hread := unescape_encode query s
  rwa [encodeURIComponent_plain h] at hread

/-- An escaped text holds nothing but bytes that are kept, `%` and digits, so none of the
separators. -/
theorem not_mem_encodeURIComponent {c : UInt8} (hc : isKept c = false) (hpercent : c ≠ 37)
    (s : GoString) : c ∉ encodeURIComponent s := by
  have hdigit : ∀ n < 16, isKept (upperDigit n) = true := by decide
  intro hmem
  obtain ⟨b, _, hb⟩ := List.mem_flatMap.mp hmem
  split_ifs at hb with hkept
  · exact ne_of_isKept hkept hc (List.mem_singleton.mp hb).symm
  · have hhigh : b.toNat / 16 < 16 := by
      have := b.toNat_lt
      omega
    simp only [escape, List.mem_cons, List.not_mem_nil, or_false] at hb
    rcases hb with rfl | rfl | rfl
    · exact hpercent rfl
    · exact ne_of_isKept (hdigit _ hhigh) hc rfl
    · exact ne_of_isKept (hdigit _ (Nat.mod_lt _ (by decide))) hc rfl

/-! ## Paths and queries -/

/-- `strings.Cut(s, sep)`: what comes before the first separator, and what comes after. -/
def cut (sep : UInt8) (s : GoString) : GoString × GoString :=
  (s.takeWhile (· ≠ sep), (s.dropWhile (· ≠ sep)).tail)

theorem cut_append {sep : UInt8} {s : GoString} (h : sep ∉ s) (t : GoString) :
    cut sep (s ++ sep :: t) = (s, t) := by
  have hs : ∀ b ∈ s, decide (b ≠ sep) = true :=
    fun b hb => decide_eq_true (fun heq => h (heq ▸ hb))
  unfold cut
  rw [List.takeWhile_append_of_pos hs, List.dropWhile_append_of_pos hs]
  simp

/-- The segments of a path, the first of which is empty. -/
def segments (path : GoString) : Option (List GoString) :=
  (path.splitOn 47).mapM (unescape false)

/-- `url.ParseQuery(query)`: the pairs that are well formed. -/
def parseQuery (query : GoString) : List (GoString × GoString) :=
  (query.splitOn 38).filterMap (fun piece =>
    if piece = [] ∨ List.elem 59 piece then none
    else
      (unescape true (cut 61 piece).1).bind fun key =>
        (unescape true (cut 61 piece).2).map fun value => (key, value))

/-- `values.Get(key)`: the first value of a key, and the empty text if it has none. -/
def get (values : List (GoString × GoString)) (key : GoString) : GoString :=
  ((values.find? (fun pair => pair.1 = key)).map Prod.snd).getD []

/-- The query of some pairs of texts with nothing to escape. -/
def query (values : List (GoString × GoString)) : GoString :=
  [(38 : UInt8)].intercalate (values.map (fun pair => pair.1 ++ 61 :: pair.2))

/-- **A query is read back as its pairs.** -/
theorem parseQuery_query {values : List (GoString × GoString)} (hne : values ≠ [])
    (h : ∀ pair ∈ values, Plain pair.1 ∧ Plain pair.2) : parseQuery (query values) = values := by
  have hpiece : ∀ piece ∈ values.map (fun pair => pair.1 ++ 61 :: pair.2), 38 ∉ piece := by
    intro piece hmem
    obtain ⟨pair, hpair, rfl⟩ := List.mem_map.mp hmem
    obtain ⟨hkey, hvalue⟩ := h pair hpair
    simp [hkey.not_mem (c := 38) (by decide), hvalue.not_mem (c := 38) (by decide)]
  unfold parseQuery query
  rw [List.splitOn_intercalate 38 hpiece (by simpa using hne), List.filterMap_map]
  refine (List.filterMap_congr (fun pair hpair => ?_)).trans (List.filterMap_some)
  obtain ⟨hkey, hvalue⟩ := h pair hpair
  have hpairs : ¬ (pair.1 ++ 61 :: pair.2 = [] ∨ List.elem 59 (pair.1 ++ 61 :: pair.2)) := by
    simp [hkey.not_mem (c := 59) (by decide), hvalue.not_mem (c := 59) (by decide)]
  show (if pair.1 ++ 61 :: pair.2 = [] ∨ List.elem 59 (pair.1 ++ 61 :: pair.2) then none
    else _) = _
  rw [if_neg hpairs, cut_append (hkey.not_mem (by decide)), unescape_plain true hkey,
    unescape_plain true hvalue, Option.bind_some, Option.map_some]

end Targets
