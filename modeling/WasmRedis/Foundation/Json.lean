import Mathlib
import WasmRedis.Foundation.JsonString

/-!
# JSON texts

The texts of JSON values as Go's `encoding/json` writes and reads them. A value
is *well formed* if its numbers are numbers of the language. The text of a
well-formed value is read back as that value, with `U+FFFD` for what was not
UTF-8 in its strings (`parse_render`), and has no control character in it
(`WellFormed.printable`). Every value read has strings of UTF-8 only
(`coerced_of_parse`).

The reader counts its steps with a fuel that a text cannot exhaust; the limit
Go puts on the nesting of values is left out.
-/

/-- A JSON value. The members of an object are in the order of the text. -/
inductive Json where
  /-- `null`. -/
  | null
  /-- `true` or `false`. -/
  | bool (b : Bool)
  /-- A number, as the text has it. -/
  | number (text : GoString)
  /-- A string. -/
  | string (text : GoString)
  /-- An array. -/
  | array (items : List Json)
  /-- An object. -/
  | object (members : List (GoString × Json))

namespace Json

open GoString

/-! ## Numbers -/

/-- `[0-9]`. -/
def isDigit (b : UInt8) : Bool := 48 ≤ b ∧ b ≤ 57

/-- The bytes of which numbers are made. -/
def isNumberByte (b : UInt8) : Bool := isDigit b || [43, 45, 46, 69, 101].contains b

/-- Passes over one digit or more. -/
def digits : GoString → Option GoString
  | b :: s => if isDigit b then some (s.dropWhile isDigit) else none
  | [] => none

/-- Passes over `0`, or over a digit other than `0` and those that follow. -/
def integerPart : GoString → Option GoString
  | b :: s => if b = 48 then some s else digits (b :: s)
  | [] => none

/-- Passes over `(\.[0-9]+)?`. -/
def fraction : GoString → Option GoString
  | b :: s => if b = 46 then digits s else some (b :: s)
  | [] => some []

/-- Passes over a sign, if there is one. -/
def unsigned (signs : List UInt8) : GoString → GoString
  | b :: s => if signs.contains b then s else b :: s
  | [] => []

/-- Passes over `([eE][+-]?[0-9]+)?`. -/
def exponent : GoString → Option GoString
  | b :: s => if b = 69 ∨ b = 101 then digits (unsigned [43, 45] s) else some (b :: s)
  | [] => some []

/-- The numbers of the language, `-?(0|[1-9][0-9]*)(\.[0-9]+)?([eE][+-]?[0-9]+)?`. -/
def isNumber (text : GoString) : Bool :=
  ((integerPart (unsigned [45] text)).bind fraction).bind exponent = some []

/-! ## Texts -/

mutual

/-- The text of a value. -/
def render : Json → GoString
  | null => str "null"
  | bool true => str "true"
  | bool false => str "false"
  | number text => text
  | string text => quote text
  | array items => 91 :: (renderItems items ++ [93])
  | object members => 123 :: (renderMembers members ++ [125])

/-- The text of the items of an array. -/
def renderItems : List Json → GoString
  | [] => []
  | [v] => render v
  | v :: items => render v ++ 44 :: renderItems items

/-- The text of the members of an object. -/
def renderMembers : List (GoString × Json) → GoString
  | [] => []
  | [(key, v)] => quote key ++ 58 :: render v
  | (key, v) :: members => quote key ++ 58 :: (render v ++ 44 :: renderMembers members)

end

/-- Passes over the space between tokens. -/
def skipSpace (s : GoString) : GoString := s.dropWhile ([32, 9, 10, 13].contains ·)

/-- Passes over a token of one byte. -/
def expect (token : UInt8) (s : GoString) : Option GoString :=
  match skipSpace s with
  | b :: s => if b = token then some s else none
  | [] => none

/-- Passes over the name of a value. -/
def name (text : GoString) (v : Json) (s : GoString) : Option (Json × GoString) :=
  if text <+: s then some (v, s.drop text.length) else none

/-- Reads a number. -/
def parseNumber (s : GoString) : Option (Json × GoString) :=
  if isNumber (s.takeWhile isNumberByte) then
    some (number (s.takeWhile isNumberByte), s.dropWhile isNumberByte)
  else none

mutual

/-- Reads a value, and returns what follows it. -/
def parseValue : ℕ → GoString → Option (Json × GoString)
  | 0, _ => none
  | fuel + 1, s =>
    match skipSpace s with
    | [] => none
    | b :: s =>
      if b = quotation then (unquote 0 s).map (fun r => (string r.1, r.2))
      else if b = 123 then
        match expect 125 s with
        | some s => some (object [], s)
        | none => (parseMembers fuel s).map (fun r => (object r.1, r.2))
      else if b = 91 then
        match expect 93 s with
        | some s => some (array [], s)
        | none => (parseItems fuel s).map (fun r => (array r.1, r.2))
      else if b = 110 then name (str "null") null (b :: s)
      else if b = 116 then name (str "true") (bool true) (b :: s)
      else if b = 102 then name (str "false") (bool false) (b :: s)
      else parseNumber (b :: s)

/-- Reads the items of an array that has some, and the bracket that ends it. -/
def parseItems : ℕ → GoString → Option (List Json × GoString)
  | 0, _ => none
  | fuel + 1, s =>
    match parseValue fuel s with
    | none => none
    | some (v, s) =>
      match expect 44 s with
      | some s => (parseItems fuel s).map (fun r => (v :: r.1, r.2))
      | none => (expect 93 s).map (fun s => ([v], s))

/-- Reads the members of an object that has some, and the brace that ends it. -/
def parseMembers : ℕ → GoString → Option (List (GoString × Json) × GoString)
  | 0, _ => none
  | fuel + 1, s =>
    match (expect quotation s).bind (unquote 0) with
    | none => none
    | some (key, s) =>
      match (expect 58 s).bind (parseValue fuel) with
      | none => none
      | some (v, s) =>
        match expect 44 s with
        | some s => (parseMembers fuel s).map (fun r => ((key, v) :: r.1, r.2))
        | none => (expect 125 s).map (fun s => ([(key, v)], s))

end

/-- Reads a text that is one value. -/
def parse (s : GoString) : Option Json :=
  match parseValue (s.length + 1) s with
  | none => none
  | some (v, rest) => if skipSpace rest = [] then some v else none

/-- **A well-formed value**: its numbers are numbers of the language. -/
inductive WellFormed : Json → Prop where
  | null : WellFormed null
  | bool (b : Bool) : WellFormed (bool b)
  | number {text : GoString} (h : isNumber text = true) : WellFormed (number text)
  | string (text : GoString) : WellFormed (string text)
  | array {items : List Json} (h : ∀ v ∈ items, WellFormed v) : WellFormed (array items)
  | object {members : List (GoString × Json)} (h : ∀ m ∈ members, WellFormed m.2) :
      WellFormed (object members)

mutual

/-- The value with `U+FFFD` for each byte that is not UTF-8. -/
def coerced : Json → Json
  | null => null
  | bool b => bool b
  | number text => number text
  | string text => string (GoString.coerced text)
  | array items => array (coercedItems items)
  | object members => object (coercedMembers members)

/-- The items of an array. -/
def coercedItems : List Json → List Json
  | [] => []
  | v :: items => coerced v :: coercedItems items

/-- The members of an object. -/
def coercedMembers : List (GoString × Json) → List (GoString × Json)
  | [] => []
  | (key, v) :: members => (GoString.coerced key, coerced v) :: coercedMembers members

end

theorem coercedMembers_eq_map (members : List (GoString × Json)) :
    coercedMembers members = members.map (fun m => (GoString.coerced m.1, coerced m.2)) := by
  induction members with
  | nil => rfl
  | cons m members ih => exact congrArg _ ih

/-- The members of a value whose strings are UTF-8. -/
theorem coerced_of_mem {members : List (GoString × Json)}
    (h : (object members).coerced = object members) {m : GoString × Json} (hm : m ∈ members) :
    GoString.coerced m.1 = m.1 ∧ m.2.coerced = m.2 := by
  have hmap : members.map (fun m => (GoString.coerced m.1, m.2.coerced)) = members.map id := by
    rw [← coercedMembers_eq_map, List.map_id]
    exact object.inj h
  exact Prod.mk.inj (List.map_inj_left.mp hmap m hm)

/-! ### Reading back a number -/

/-- What a part of a number passes over is made of number bytes. -/
def Passes (part : GoString → Option GoString) : Prop :=
  ∀ s t, part s = some t → ∃ l, s = l ++ t ∧ ∀ b ∈ l, isNumberByte b = true

theorem isNumberByte_of_isDigit {b : UInt8} (h : isDigit b = true) : isNumberByte b = true := by
  unfold isNumberByte
  rw [h, Bool.true_or]

/-- One more byte passed over. -/
theorem Passes.cons {part : GoString → Option GoString} (hpart : Passes part) {b : UInt8}
    (hb : isNumberByte b = true) {s t : GoString} (h : part s = some t) :
    ∃ l, b :: s = l ++ t ∧ ∀ b ∈ l, isNumberByte b = true := by
  obtain ⟨l, rfl, hl⟩ := hpart s t h
  exact ⟨b :: l, rfl, List.forall_mem_cons.mpr ⟨hb, hl⟩⟩

/-- A sign passed over. -/
theorem Passes.unsigned {part : GoString → Option GoString} (hpart : Passes part)
    {signs : List UInt8} (hsigns : signs ⊆ [43, 45]) {s t : GoString}
    (h : part (unsigned signs s) = some t) :
    ∃ l, s = l ++ t ∧ ∀ b ∈ l, isNumberByte b = true := by
  cases s with
  | nil => exact hpart _ _ h
  | cons b s =>
    rw [Json.unsigned] at h
    split_ifs at h with hb
    · refine hpart.cons ?_ h
      have hmem := hsigns (List.contains_iff_mem.mp hb)
      obtain rfl | rfl := List.mem_pair.mp hmem <;> rfl
    · exact hpart _ _ h

theorem passes_digits : Passes digits := by
  intro s t h
  cases s with
  | nil => exact nomatch h
  | cons b s =>
    rw [digits] at h
    split_ifs at h with hb
    obtain rfl := Option.some.inj h
    refine ⟨b :: s.takeWhile isDigit, ?_, List.forall_mem_cons.mpr
      ⟨isNumberByte_of_isDigit hb, fun c hc => isNumberByte_of_isDigit (List.mem_takeWhile_imp hc)⟩⟩
    rw [List.cons_append, List.takeWhile_append_dropWhile]

theorem passes_integerPart : Passes integerPart := by
  intro s t h
  cases s with
  | nil => exact nomatch h
  | cons b s =>
    rw [integerPart] at h
    split_ifs at h with hb
    · obtain rfl := Option.some.inj h
      exact ⟨[b], rfl, List.forall_mem_singleton.mpr (by rw [hb]; rfl)⟩
    · exact passes_digits _ _ h

theorem passes_fraction : Passes fraction := by
  intro s t h
  cases s with
  | nil => exact ⟨[], Option.some.inj h, List.forall_mem_nil _⟩
  | cons b s =>
    rw [fraction] at h
    split_ifs at h with hb
    · exact passes_digits.cons (by rw [hb]; rfl) h
    · exact ⟨[], Option.some.inj h, List.forall_mem_nil _⟩

theorem passes_exponent : Passes exponent := by
  intro s t h
  cases s with
  | nil => exact ⟨[], Option.some.inj h, List.forall_mem_nil _⟩
  | cons b s =>
    rw [exponent] at h
    split_ifs at h with hb
    · obtain ⟨l, rfl, hl⟩ := passes_digits.unsigned (List.Subset.refl _) h
      have hb' : isNumberByte b = true := by
        obtain rfl | rfl := hb <;> rfl
      exact ⟨b :: l, rfl, List.forall_mem_cons.mpr ⟨hb', hl⟩⟩
    · exact ⟨[], Option.some.inj h, List.forall_mem_nil _⟩

theorem passes_unsigned :
    Passes (fun s => ((integerPart s).bind fraction).bind exponent) := by
  intro s t hs
  obtain ⟨t₂, hs, h₃⟩ := Option.bind_eq_some_iff.mp hs
  obtain ⟨t₁, h₁, h₂⟩ := Option.bind_eq_some_iff.mp hs
  obtain ⟨l₁, rfl, hl₁⟩ := passes_integerPart _ _ h₁
  obtain ⟨l₂, rfl, hl₂⟩ := passes_fraction _ _ h₂
  obtain ⟨l₃, rfl, hl₃⟩ := passes_exponent _ _ h₃
  refine ⟨l₁ ++ (l₂ ++ l₃), by simp only [List.append_assoc], ?_⟩
  exact List.forall_mem_append.mpr ⟨hl₁, List.forall_mem_append.mpr ⟨hl₂, hl₃⟩⟩

theorem isNumberByte_of_isNumber {text : GoString} (h : isNumber text = true) :
    ∀ b ∈ text, isNumberByte b = true := by
  obtain ⟨l, rfl, hl⟩ := passes_unsigned.unsigned (List.cons_subset.mpr
    ⟨List.mem_cons_of_mem _ List.mem_cons_self, List.nil_subset _⟩) (of_decide_eq_true h)
  rwa [List.append_nil]

/-- No number goes on where a text does. -/
def Stops (rest : GoString) : Prop := ∀ b ∈ rest.head?, isNumberByte b = false

theorem parseNumber_append {text rest : GoString} (h : isNumber text = true) (hrest : Stops rest) :
    parseNumber (text ++ rest) = some (number text, rest) := by
  have hbytes := isNumberByte_of_isNumber h
  have hstop : rest.takeWhile isNumberByte = [] ∧ rest.dropWhile isNumberByte = rest := by
    cases rest with
    | nil => exact ⟨rfl, rfl⟩
    | cons b rest =>
      have hb := hrest b rfl
      exact ⟨List.takeWhile_cons_of_neg (by rw [hb]; decide),
        List.dropWhile_cons_of_neg (by rw [hb]; decide)⟩
  unfold parseNumber
  rw [List.takeWhile_append_of_pos hbytes, List.dropWhile_append_of_pos hbytes, hstop.1, hstop.2,
    List.append_nil, if_pos h]

/-! ### Reading back a value -/

/-- The byte starts a token, and no bracket closes with it. -/
def Starts (b : UInt8) : Prop := skipSpace [b] = [b] ∧ b ≠ 93

theorem starts_of_isNumberByte {b : UInt8} (h : isNumberByte b = true) : Starts b := by
  constructor
  · unfold skipSpace
    refine List.dropWhile_cons_of_neg (fun hspace => ?_)
    have hmem : b ∈ [32, 9, 10, 13] := List.contains_iff_mem.mp hspace
    simp only [List.mem_cons, List.not_mem_nil, or_false] at hmem
    rcases hmem with rfl | rfl | rfl | rfl <;> exact absurd h (by decide)
  · rintro rfl
    exact absurd h (by decide)

theorem skipSpace_cons {b : UInt8} (h : skipSpace [b] = [b]) (s : GoString) :
    skipSpace (b :: s) = b :: s := by
  unfold skipSpace at h ⊢
  rw [List.dropWhile_cons] at h ⊢
  split_ifs at h ⊢
  · exact nomatch h
  · rfl

theorem expect_cons {b token : UInt8} (h : skipSpace [b] = [b]) (s : GoString) :
    expect token (b :: s) = if b = token then some s else none := by
  unfold expect
  rw [skipSpace_cons h]

/-- The text of a well-formed value starts with the byte of a token. -/
theorem WellFormed.starts {v : Json} (h : v.WellFormed) :
    ∃ b s, render v = b :: s ∧ Starts b := by
  cases h with
  | null => exact ⟨_, _, rfl, rfl, by decide⟩
  | bool b =>
    cases b
    · exact ⟨_, _, rfl, rfl, by decide⟩
    · exact ⟨_, _, rfl, rfl, by decide⟩
  | @number text h =>
    cases text with
    | nil => exact absurd h (by decide)
    | cons b s =>
      exact ⟨b, s, rfl, starts_of_isNumberByte
        (isNumberByte_of_isNumber h b List.mem_cons_self)⟩
  | string text => exact ⟨_, _, rfl, rfl, by decide⟩
  | array h => exact ⟨_, _, rfl, rfl, by decide⟩
  | object h => exact ⟨_, _, rfl, rfl, by decide⟩

theorem stops_cons {b : UInt8} (h : isNumberByte b = false) (s : GoString) : Stops (b :: s) :=
  fun _ hc => by
    obtain rfl := Option.some.inj hc
    exact h

/-- Only numbers start with a byte of a number. -/
theorem parseValue_of_isNumberByte {b : UInt8} (h : isNumberByte b = true) (fuel : ℕ)
    (s : GoString) : parseValue (fuel + 1) (b :: s) = parseNumber (b :: s) := by
  have hne : ∀ c, isNumberByte c = false → b ≠ c := by
    rintro c hc rfl
    rw [hc] at h
    exact Bool.noConfusion h
  rw [parseValue, skipSpace_cons (starts_of_isNumberByte h).1]
  dsimp only
  rw [if_neg (hne _ rfl), if_neg (hne _ rfl), if_neg (hne _ rfl), if_neg (hne _ rfl),
    if_neg (hne _ rfl), if_neg (hne _ rfl)]

theorem parseValue_number {text : GoString} (h : isNumber text = true) (fuel : ℕ)
    {rest : GoString} (hrest : Stops rest) :
    parseValue (fuel + 1) (text ++ rest) = some (number text, rest) := by
  have hread := parseNumber_append h hrest
  cases text with
  | nil => exact absurd h (by decide)
  | cons b s =>
    rw [List.cons_append] at hread ⊢
    rw [parseValue_of_isNumberByte (isNumberByte_of_isNumber h b List.mem_cons_self), hread]

/-- A value is read back from its text, whatever follows it. -/
def ReadsBack (v : Json) : Prop :=
  ∀ fuel rest, (render v).length < fuel → Stops rest →
    parseValue fuel (render v ++ rest) = some (v.coerced, rest)

theorem parseItems_render {items : List Json} (hne : items ≠ [])
    (h : ∀ v ∈ items, ReadsBack v) {fuel : ℕ} {rest : GoString}
    (hfuel : (renderItems items).length + 1 < fuel) :
    parseItems fuel (renderItems items ++ 93 :: rest) = some (coercedItems items, rest) := by
  induction items generalizing fuel with
  | nil => exact absurd rfl hne
  | cons v items ih =>
    obtain ⟨fuel, rfl⟩ : ∃ k, fuel = k + 1 := ⟨fuel - 1, by omega⟩
    have hv := h v List.mem_cons_self
    cases items with
    | nil =>
      have hread := hv fuel (93 :: rest) (by exact Nat.lt_of_succ_lt_succ hfuel)
        (stops_cons rfl _)
      show parseItems (fuel + 1) (render v ++ 93 :: rest) = _
      rw [parseItems, hread]
      rfl
    | cons w items =>
      have htext : renderItems (v :: w :: items) = render v ++ 44 :: renderItems (w :: items) := rfl
      rw [htext] at hfuel ⊢
      rw [List.length_append, List.length_cons] at hfuel
      have hread := hv fuel (44 :: renderItems (w :: items) ++ 93 :: rest) (by omega)
        (stops_cons rfl _)
      have hlen : (renderItems (w :: items)).length + 1 < fuel := by omega
      have hrest := ih (List.cons_ne_nil _ _) (fun u hu => h u (List.mem_cons_of_mem _ hu)) hlen
      rw [List.append_assoc, parseItems, hread]
      show (parseItems fuel (renderItems (w :: items) ++ 93 :: rest)).map _ = _
      rw [hrest]
      rfl

theorem expect_quote (key s : GoString) :
    (expect quotation (quote key ++ s)).bind (unquote 0) = some (GoString.coerced key, s) := by
  show unquote 0 ((quoteFrom 0 key ++ [quotation]) ++ s) = _
  rw [List.append_assoc]
  exact unquote_quoteFrom key s

theorem parseMembers_render {members : List (GoString × Json)} (hne : members ≠ [])
    (h : ∀ m ∈ members, ReadsBack m.2) {fuel : ℕ} {rest : GoString}
    (hfuel : (renderMembers members).length + 1 < fuel) :
    parseMembers fuel (renderMembers members ++ 125 :: rest)
      = some (coercedMembers members, rest) := by
  induction members generalizing fuel with
  | nil => exact absurd rfl hne
  | cons m members ih =>
    obtain ⟨key, v⟩ := m
    obtain ⟨fuel, rfl⟩ : ∃ k, fuel = k + 1 := ⟨fuel - 1, by omega⟩
    have hv : ReadsBack v := h _ List.mem_cons_self
    have hkey := expect_quote key
    cases members with
    | nil =>
      have htext : renderMembers [(key, v)] = quote key ++ 58 :: render v := rfl
      rw [htext] at hfuel ⊢
      rw [List.length_append, List.length_cons] at hfuel
      have hread := hv fuel (125 :: rest) (by omega) (stops_cons rfl _)
      rw [List.append_assoc, parseMembers, hkey]
      show (match parseValue fuel (render v ++ 125 :: rest) with
        | none => none
        | some (v, s) => _) = _
      rw [hread]
      rfl
    | cons m members =>
      have htext : renderMembers ((key, v) :: m :: members)
          = quote key ++ 58 :: (render v ++ 44 :: renderMembers (m :: members)) := rfl
      rw [htext] at hfuel ⊢
      simp only [List.length_append, List.length_cons] at hfuel
      have hread := hv fuel (44 :: renderMembers (m :: members) ++ 125 :: rest) (by omega)
        (stops_cons rfl _)
      have hlen : (renderMembers (m :: members)).length + 1 < fuel := by omega
      have hrest := ih (List.cons_ne_nil _ _) (fun u hu => h u (List.mem_cons_of_mem _ hu)) hlen
      rw [List.append_assoc, parseMembers, hkey]
      show (match parseValue fuel
          ((render v ++ 44 :: renderMembers (m :: members)) ++ 125 :: rest) with
        | none => none
        | some (v, s) => _) = _
      rw [List.append_assoc, hread]
      show (parseMembers fuel (renderMembers (m :: members) ++ 125 :: rest)).map _ = _
      rw [hrest]
      rfl

/-- The items of an array start with no bracket. -/
theorem expect_renderItems {items : List Json} (hne : items ≠ [])
    (h : ∀ v ∈ items, v.WellFormed) (s : GoString) :
    expect 93 (renderItems items ++ s) = none := by
  cases items with
  | nil => exact absurd rfl hne
  | cons v items =>
    obtain ⟨b, t, htext, hspace, hb⟩ := (h v List.mem_cons_self).starts
    have hstart : ∃ t', renderItems (v :: items) = b :: t' := by
      cases items with
      | nil => exact ⟨t, htext⟩
      | cons w items => exact ⟨_, congrArg (· ++ 44 :: renderItems (w :: items)) htext⟩
    obtain ⟨t', ht'⟩ := hstart
    rw [ht', List.cons_append, expect_cons hspace, if_neg hb]

/-- The members of an object start with a quotation mark. -/
theorem exists_renderMembers {members : List (GoString × Json)} (hne : members ≠ []) :
    ∃ t, renderMembers members = quotation :: t := by
  match members with
  | [] => exact absurd rfl hne
  | [_] => exact ⟨_, rfl⟩
  | _ :: _ :: _ => exact ⟨_, rfl⟩

theorem expect_renderMembers {members : List (GoString × Json)} (hne : members ≠ [])
    (s : GoString) : expect 125 (renderMembers members ++ s) = none := by
  obtain ⟨t, ht⟩ := exists_renderMembers hne
  rw [ht]
  rfl

/-- **Every well-formed value is read back from its text.** -/
theorem WellFormed.readsBack {v : Json} (h : v.WellFormed) : ReadsBack v := by
  induction h with
  | null =>
    intro fuel rest hfuel _
    obtain ⟨fuel, rfl⟩ : ∃ k, fuel = k + 1 := ⟨fuel - 1, by omega⟩
    rfl
  | bool b =>
    intro fuel rest hfuel _
    obtain ⟨fuel, rfl⟩ : ∃ k, fuel = k + 1 := ⟨fuel - 1, by omega⟩
    cases b <;> rfl
  | number h =>
    intro fuel rest hfuel hrest
    obtain ⟨fuel, rfl⟩ : ∃ k, fuel = k + 1 := ⟨fuel - 1, by omega⟩
    exact parseValue_number h fuel hrest
  | string text =>
    intro fuel rest hfuel _
    obtain ⟨fuel, rfl⟩ : ∃ k, fuel = k + 1 := ⟨fuel - 1, by omega⟩
    show (unquote 0 ((quoteFrom 0 text ++ [quotation]) ++ rest)).map _ = _
    rw [List.append_assoc]
    show (unquote 0 (quoteFrom 0 text ++ quotation :: rest)).map _ = _
    rw [unquote_quoteFrom]
    rfl
  | @array items h ih =>
    intro fuel rest hfuel _
    obtain ⟨fuel, rfl⟩ : ∃ k, fuel = k + 1 := ⟨fuel - 1, by omega⟩
    have htext : render (Json.array items) = 91 :: (renderItems items ++ [93]) := rfl
    rw [htext, List.length_cons, List.length_append, List.length_singleton] at hfuel
    rw [htext, List.cons_append, List.append_assoc]
    by_cases hne : items = []
    · rw [hne]
      rfl
    · show (match expect 93 (renderItems items ++ 93 :: rest) with
        | some s => _
        | none => (parseItems fuel (renderItems items ++ 93 :: rest)).map _) = _
      rw [expect_renderItems hne h, parseItems_render hne ih (by omega)]
      rfl
  | @object members h ih =>
    intro fuel rest hfuel _
    obtain ⟨fuel, rfl⟩ : ∃ k, fuel = k + 1 := ⟨fuel - 1, by omega⟩
    have htext : render (Json.object members) = 123 :: (renderMembers members ++ [125]) := rfl
    rw [htext, List.length_cons, List.length_append, List.length_singleton] at hfuel
    rw [htext, List.cons_append, List.append_assoc]
    by_cases hne : members = []
    · rw [hne]
      rfl
    · show (match expect 125 (renderMembers members ++ 125 :: rest) with
        | some s => _
        | none => (parseMembers fuel (renderMembers members ++ 125 :: rest)).map _) = _
      rw [expect_renderMembers hne, parseMembers_render hne ih (by omega)]
      rfl

/-- **The text of a well-formed value is read back as that value**, with strings
of UTF-8. -/
theorem parse_render {v : Json} (h : v.WellFormed) : parse (render v) = some v.coerced := by
  have hread := h.readsBack ((render v).length + 1) [] (Nat.lt_succ_self _) (fun _ hb => nomatch hb)
  rw [List.append_nil] at hread
  unfold parse
  rw [hread]
  rfl

/-! ### Strings of UTF-8 -/

theorem coerced_of_name {text rest s : GoString} {v w : Json} (hw : w.coerced = w)
    (h : name text w s = some (v, rest)) : v.coerced = v := by
  unfold name at h
  split_ifs at h
  rwa [← (Prod.mk.inj (Option.some.inj h)).1]

theorem coerced_of_parseNumber {s rest : GoString} {v : Json} (h : parseNumber s = some (v, rest)) :
    v.coerced = v := by
  unfold parseNumber at h
  split_ifs at h
  rw [← (Prod.mk.inj (Option.some.inj h)).1]
  rfl

/-- What the three readers read, with this much fuel, has strings of UTF-8. -/
def ReadsValid (fuel : ℕ) : Prop :=
  (∀ s v rest, parseValue fuel s = some (v, rest) → v.coerced = v)
    ∧ (∀ s items rest, parseItems fuel s = some (items, rest) → coercedItems items = items)
    ∧ ∀ s members rest, parseMembers fuel s = some (members, rest) →
      coercedMembers members = members

theorem ReadsValid.parseValue {fuel : ℕ} (h : ReadsValid fuel) {s rest : GoString} {v : Json}
    (hread : Json.parseValue (fuel + 1) s = some (v, rest)) : v.coerced = v := by
  obtain ⟨_, hitems, hmembers⟩ := h
  rw [Json.parseValue] at hread
  split at hread
  · exact nomatch hread
  next b s _ =>
    split_ifs at hread
    · obtain ⟨r, htext, hr⟩ := Option.map_eq_some_iff.mp hread
      rw [← (Prod.mk.inj hr).1, coerced, coerced_of_isUTF8 (isUTF8_of_unquote htext)]
    · split at hread
      · rw [← (Prod.mk.inj (Option.some.inj hread)).1]
        rfl
      · obtain ⟨r, hr, hv⟩ := Option.map_eq_some_iff.mp hread
        rw [← (Prod.mk.inj hv).1, coerced, hmembers _ _ _ hr]
    · split at hread
      · rw [← (Prod.mk.inj (Option.some.inj hread)).1]
        rfl
      · obtain ⟨r, hr, hv⟩ := Option.map_eq_some_iff.mp hread
        rw [← (Prod.mk.inj hv).1, coerced, hitems _ _ _ hr]
    · exact coerced_of_name rfl hread
    · exact coerced_of_name rfl hread
    · exact coerced_of_name rfl hread
    · exact coerced_of_parseNumber hread

theorem ReadsValid.parseItems {fuel : ℕ} (h : ReadsValid fuel) {s rest : GoString}
    {items : List Json} (hread : Json.parseItems (fuel + 1) s = some (items, rest)) :
    coercedItems items = items := by
  obtain ⟨hvalue, hitems, _⟩ := h
  rw [Json.parseItems] at hread
  split at hread
  · exact nomatch hread
  next v s hv =>
    split at hread
    · obtain ⟨r, hr, hi⟩ := Option.map_eq_some_iff.mp hread
      rw [← (Prod.mk.inj hi).1, coercedItems, hvalue _ _ _ hv, hitems _ _ _ hr]
    · obtain ⟨r, _, hi⟩ := Option.map_eq_some_iff.mp hread
      rw [← (Prod.mk.inj hi).1, coercedItems, hvalue _ _ _ hv]
      rfl

theorem ReadsValid.parseMembers {fuel : ℕ} (h : ReadsValid fuel) {s rest : GoString}
    {members : List (GoString × Json)}
    (hread : Json.parseMembers (fuel + 1) s = some (members, rest)) :
    coercedMembers members = members := by
  obtain ⟨hvalue, _, hmembers⟩ := h
  rw [Json.parseMembers] at hread
  split at hread
  · exact nomatch hread
  next key s hkey =>
    obtain ⟨s₁, _, htext⟩ := Option.bind_eq_some_iff.mp hkey
    have hkeyText := coerced_of_isUTF8 (isUTF8_of_unquote htext)
    split at hread
    · exact nomatch hread
    next v s hv =>
      obtain ⟨s₂, _, hv⟩ := Option.bind_eq_some_iff.mp hv
      split at hread
      · obtain ⟨r, hr, hm⟩ := Option.map_eq_some_iff.mp hread
        rw [← (Prod.mk.inj hm).1, coercedMembers, hkeyText, hvalue _ _ _ hv, hmembers _ _ _ hr]
      · obtain ⟨r, _, hm⟩ := Option.map_eq_some_iff.mp hread
        rw [← (Prod.mk.inj hm).1, coercedMembers, hkeyText, hvalue _ _ _ hv]
        rfl

theorem readsValid (fuel : ℕ) : ReadsValid fuel := by
  induction fuel with
  | zero => exact ⟨nofun, nofun, nofun⟩
  | succ fuel ih =>
    exact ⟨fun _ _ _ => ih.parseValue, fun _ _ _ => ih.parseItems, fun _ _ _ => ih.parseMembers⟩

/-- **Every value read has strings of UTF-8.** -/
theorem coerced_of_parse {s : GoString} {v : Json} (h : parse s = some v) : v.coerced = v := by
  unfold parse at h
  split at h
  · exact nomatch h
  next w rest hread =>
    split_ifs at h
    rw [← Option.some.inj h]
    exact (readsValid _).1 _ _ _ hread

/-! ### One line -/

/-- No control character. -/
def Printable (s : GoString) : Prop := ∀ b ∈ s, 32 ≤ b.toNat

theorem printable_of_all {s : GoString} (h : s.all (fun b => 32 ≤ b.toNat) = true) :
    Printable s := fun b hb => of_decide_eq_true (List.all_eq_true.mp h b hb)

theorem Printable.append {s t : GoString} (hs : Printable s) (ht : Printable t) :
    Printable (s ++ t) := List.forall_mem_append.mpr ⟨hs, ht⟩

theorem Printable.cons {b : UInt8} {s : GoString} (hb : 32 ≤ b.toNat) (hs : Printable s) :
    Printable (b :: s) := List.forall_mem_cons.mpr ⟨hb, hs⟩

theorem printable_quote (s : GoString) : Printable (quote s) :=
  Printable.cons (by decide) (Printable.append (fun _ => le_of_mem_quoteFrom)
    (Printable.cons (by decide) nofun))

theorem printable_number {text : GoString} (h : isNumber text = true) : Printable text := by
  intro b hb
  obtain hdigit | hother := (Bool.or_eq_true _ _).mp (isNumberByte_of_isNumber h b hb)
  · have hlow := UInt8.le_iff_toNat_le.mp (of_decide_eq_true hdigit).1
    exact le_trans (by decide) hlow
  · have hmem := List.contains_iff_mem.mp hother
    simp only [List.mem_cons, List.not_mem_nil, or_false] at hmem
    rcases hmem with rfl | rfl | rfl | rfl | rfl <;> decide

theorem printable_renderItems {items : List Json} (h : ∀ v ∈ items, Printable (render v)) :
    Printable (renderItems items) := by
  induction items with
  | nil => exact nofun
  | cons v items ih =>
    have hv := h v List.mem_cons_self
    cases items with
    | nil => exact hv
    | cons w items =>
      exact hv.append (Printable.cons (by decide) (ih fun u hu => h u (List.mem_cons_of_mem _ hu)))

theorem printable_renderMembers {members : List (GoString × Json)}
    (h : ∀ m ∈ members, Printable (render m.2)) :
    Printable (renderMembers members) := by
  induction members with
  | nil => exact nofun
  | cons m members ih =>
    have hkey := printable_quote m.1
    have hv := h m List.mem_cons_self
    cases members with
    | nil => exact hkey.append (Printable.cons (by decide) hv)
    | cons m' members =>
      exact hkey.append (Printable.cons (by decide) (hv.append (Printable.cons (by decide)
        (ih (fun u hu => h u (List.mem_cons_of_mem _ hu))))))

/-- **The text of a well-formed value has no control character**, and so no
newline. -/
theorem WellFormed.printable {v : Json} (h : v.WellFormed) : Printable (render v) := by
  induction h with
  | null => exact printable_of_all rfl
  | bool b => cases b <;> exact printable_of_all rfl
  | number h => exact printable_number h
  | string text => exact printable_quote text
  | array h ih =>
    exact Printable.cons (by decide) ((printable_renderItems ih).append
      (Printable.cons (by decide) nofun))
  | object h ih =>
    exact Printable.cons (by decide) ((printable_renderMembers ih).append
      (Printable.cons (by decide) nofun))

end Json
