import WasmRedis.Foundation.Json

/-!
# JSON texts cut short

What is left of the text of an object after its end was lost is no JSON text
(`parse_of_cut`), and neither is what is left of it without its first brace
(`parse_of_tail`). A string without the mark that ends it is not read, and a
number that lost digits is one that nothing follows, where a comma or a brace
should.
-/

namespace Json

open GoString

/-! ## Strings -/

/-- A string is not read where no mark ends it. -/
theorem unquote_of_not_mem {skip : ℕ} {s : GoString} (h : quotation ∉ s) :
    unquote skip s = none := by
  fun_induction unquote skip s with
  | case1 => rfl
  | case2 skip _ s ih => exact ih (fun hs => h (List.mem_cons_of_mem _ hs))
  | case3 s => exact absurd List.mem_cons_self h
  | case4 => rfl
  | case5 b s _ bytes width _ ih =>
    rw [ih (fun hs => h (List.mem_cons_of_mem _ hs))]
    rfl

/-- Before its last byte, the text of a rune has no quotation mark. -/
theorem quotation_not_mem_dropLast (c : Char) : quotation ∉ (quoteRune c).dropLast := by
  have hdigit : ∀ n < 16, 34 ≠ hexDigit n := by decide
  unfold quoteRune
  split_ifs with hascii hsep
  · generalize UInt8.ofNat c.toNat = a
    have hlt : a.toNat < 256 := a.toNat_lt
    unfold quoteAscii
    split
    · simp [quotation, backslash]
    · split_ifs
      · simp [quotation, backslash, hdigit (a.toNat / 16) (by omega)]
      · simp
  · simp [quotation, backslash]
  · intro hb
    have hlong := le_of_mem_runeBytes (not_lt.mp hascii) (List.mem_of_mem_dropLast hb)
    exact absurd hlong (by decide)

/-- The end of a text is the end of its last part. -/
theorem split_or {s t p q : GoString} (h : s ++ t = p ++ q) :
    (∃ a, a ≠ [] ∧ s = p ++ a) ∨ ∃ p', p = s ++ p' ∧ t = p' ++ q := by
  obtain ⟨a, hp, ht⟩ | ⟨a, hs, hq⟩ := List.append_eq_append_iff.mp h
  · exact .inr ⟨a, hp, ht⟩
  · by_cases ha : a = []
    · rw [ha, List.append_nil] at hs
      rw [ha, List.nil_append] at hq
      exact .inr ⟨[], by rw [hs, List.append_nil], hq.symm⟩
    · exact .inl ⟨a, ha, hs⟩

/-- **A string that lost its end is not read.** -/
theorem unquote_of_cut {s p q : GoString} (h : quoteFrom 0 s ++ [quotation] = p ++ q)
    (hq : q ≠ []) : unquote 0 p = none := by
  induction hlen : s.length using Nat.strongRecOn generalizing s p with
  | ind n ih =>
    cases s with
    | nil =>
      obtain rfl : p = [] := by
        obtain ⟨hp, _⟩ | ⟨_, hq'⟩ := List.append_eq_singleton_iff.mp h.symm
        · exact hp
        · exact absurd hq' hq
      rfl
    | cons b s =>
      -- what is written for the first rune, and what reads it back
      obtain ⟨bytes, rune, k, htext, hread, hmark⟩ : ∃ bytes rune k,
          quoteFrom 0 (b :: s) = bytes ++ quoteFrom k s
            ∧ (∀ t, unquote 0 (bytes ++ t)
              = (unquote 0 t).map (fun r => (runeBytes rune ++ r.1, r.2)))
            ∧ quotation ∉ bytes.dropLast := by
        rw [quoteFrom]
        split_ifs
        · exact ⟨_, _, _, rfl, unquote_replaced, by decide⟩
        · exact ⟨_, _, _, rfl, unquote_quoteRune _, quotation_not_mem_dropLast _⟩
      rw [htext, List.append_assoc] at h
      obtain ⟨a, ha, hbytes⟩ | ⟨p', rfl, hrest⟩ := split_or h
      · refine unquote_of_not_mem (fun hp => hmark ?_)
        rw [hbytes, List.dropLast_append_of_ne_nil ha]
        exact List.mem_append_left _ hp
      · rw [quoteFrom_eq] at hrest
        have hlt : (s.drop k).length < n := by
          rw [← hlen, List.length_drop, List.length_cons]
          omega
        rw [hread, ih _ hlt hrest rfl]
        rfl

/-! ## Values -/

/-- A text of the value that lost its end is not read, or all that is left of it
is read. -/
def Cut (v : Json) : Prop :=
  ∀ fuel p q, render v = p ++ q → q ≠ [] → ∀ r ∈ parseValue fuel p, r.2 = []

/-- Only a beginning that is not empty has to be looked at. -/
theorem cut_of_cons {v : Json}
    (h : ∀ fuel b s q, render v = b :: s ++ q → q ≠ [] →
      ∀ r ∈ parseValue (fuel + 1) (b :: s), r.2 = []) : Cut v := by
  intro fuel p q htext hq r hr
  cases fuel with
  | zero => exact nomatch hr
  | succ fuel =>
    cases p with
    | nil => exact nomatch hr
    | cons b s => exact h fuel b s q htext hq r hr

theorem cut_number {text : GoString} (h : isNumber text = true) : Cut (number text) := by
  refine cut_of_cons (fun fuel b s q htext _ r hr => ?_)
  have hbytes : ∀ b' ∈ b :: s, isNumberByte b' = true := by
    intro b' hb'
    have htext' : text = b :: s ++ q := htext
    exact isNumberByte_of_isNumber h b' (htext' ▸ List.mem_append_left q hb')
  rw [parseValue_of_isNumberByte (hbytes b List.mem_cons_self)] at hr
  unfold parseNumber at hr
  split_ifs at hr with hnumber
  · obtain rfl := Option.mem_some.mp hr
    exact List.dropWhile_eq_nil_iff.mpr hbytes
  · exact nomatch hr

/-- A name that lost its end is not read. -/
theorem cut_of_name {text : GoString} {v : Json} (htext : render v = text)
    (hread : ∀ fuel b s, text.head? = some b →
      parseValue (fuel + 1) (b :: s) = name text v (b :: s)) :
    Cut v := by
  refine cut_of_cons (fun fuel b s q hp hq r hr => ?_)
  rw [htext] at hp
  have hprefix : ¬ text <+: b :: s := by
    intro h
    have hlen := h.length_le
    rw [hp, List.length_append] at hlen
    exact hq (List.length_eq_zero_iff.mp (by omega))
  rw [hread fuel b s (by rw [hp]; rfl), name, if_neg hprefix] at hr
  exact nomatch hr

theorem cut_null : Cut null :=
  cut_of_name rfl (fun _ _ _ hb => by obtain rfl := Option.some.inj hb; rfl)

theorem cut_bool (b : Bool) : Cut (bool b) := by
  cases b
  · exact cut_of_name rfl (fun _ _ _ hb => by obtain rfl := Option.some.inj hb; rfl)
  · exact cut_of_name rfl (fun _ _ _ hb => by obtain rfl := Option.some.inj hb; rfl)

theorem cut_string (text : GoString) : Cut (string text) := by
  refine cut_of_cons (fun fuel b s q htext hq r hr => ?_)
  obtain ⟨rfl, hrest⟩ := List.cons.inj htext
  have hread : parseValue (fuel + 1) (quotation :: s)
      = (unquote 0 s).map (fun r => (string r.1, r.2)) := rfl
  rw [hread, unquote_of_cut hrest hq] at hr
  exact nomatch hr

/-- A value that holds no other. -/
inductive Scalar : Json → Prop where
  | null : Scalar null
  | bool (b : Bool) : Scalar (bool b)
  | number {text : GoString} (h : isNumber text = true) : Scalar (number text)
  | string (text : GoString) : Scalar (string text)

theorem Scalar.wellFormed {v : Json} (h : v.Scalar) : v.WellFormed := by
  cases h with
  | null => exact .null
  | bool b => exact .bool b
  | number h => exact .number h
  | string text => exact .string text

theorem Scalar.cut {v : Json} (h : v.Scalar) : v.Cut := by
  cases h with
  | null => exact cut_null
  | bool b => exact cut_bool b
  | number h => exact cut_number h
  | string text => exact cut_string text

/-! ## Objects -/

/-- The members of an object of scalars that lost its end are not read. -/
theorem parseMembers_of_cut {members : List (GoString × Json)} (hne : members ≠ [])
    (h : ∀ m ∈ members, m.2.Scalar) {fuel : ℕ} {p q : GoString}
    (hfuel : p.length < fuel) (hp : renderMembers members ++ [125] = p ++ q) (hq : q ≠ []) :
    parseMembers fuel p = none := by
  induction members generalizing fuel p with
  | nil => exact absurd rfl hne
  | cons m members ih =>
    obtain ⟨key, v⟩ := m
    have hv : v.Scalar := h _ List.mem_cons_self
    obtain ⟨fuel, rfl⟩ : ∃ k, fuel = k + 1 := ⟨fuel - 1, by omega⟩
    -- what follows the first member
    obtain ⟨rest, htext, hrest⟩ : ∃ rest,
        renderMembers ((key, v) :: members) ++ [125] = quote key ++ (58 :: (render v ++ rest))
          ∧ (rest = [125] ∨ members ≠ [] ∧ rest = 44 :: (renderMembers members ++ [125])) := by
      cases members with
      | nil => exact ⟨[125], by simp [renderMembers], .inl rfl⟩
      | cons m members =>
        exact ⟨_, by simp [renderMembers], .inr ⟨List.cons_ne_nil _ _, rfl⟩⟩
    rw [htext] at hp
    rw [parseMembers]
    obtain ⟨a, ha, hkey⟩ | ⟨p₁, rfl, hp₁⟩ := split_or hp
    · have hnone : (expect quotation p).bind (unquote 0) = none := by
        cases p with
        | nil => rfl
        | cons b s =>
          obtain ⟨rfl, hs⟩ := List.cons.inj hkey
          exact unquote_of_cut hs ha
      rw [hnone]
    rw [expect_quote key p₁]
    dsimp only
    cases p₁ with
    | nil => rfl
    | cons b p₂ =>
      obtain ⟨rfl, hp₂⟩ := List.cons.inj hp₁
      have hcolon : (expect 58 (58 :: p₂)).bind (parseValue fuel) = parseValue fuel p₂ := rfl
      rw [hcolon]
      obtain ⟨a, ha, hvalue⟩ | ⟨p₃, rfl, hp₃⟩ := split_or hp₂
      · cases hread : parseValue fuel p₂ with
        | none => rfl
        | some r =>
          obtain ⟨w, s⟩ := r
          obtain rfl : s = [] := hv.cut fuel p₂ a hvalue ha _ hread
          rfl
      · simp only [List.length_append, List.length_cons] at hfuel
        have hread : Stops p₃ → parseValue fuel (render v ++ p₃) = some (v.coerced, p₃) :=
          hv.wellFormed.readsBack fuel p₃ (by omega)
        cases p₃ with
        | nil =>
          have hstops : Stops [] := fun b hb => absurd hb (by simp)
          rw [hread hstops]
          rfl
        | cons b p₄ =>
          obtain rfl | ⟨hmembers, rfl⟩ := hrest
          · obtain ⟨_, hq'⟩ := List.cons.inj hp₃
            exact absurd (List.append_eq_nil_iff.mp hq'.symm).2 hq
          · obtain ⟨rfl, hp₄⟩ := List.cons.inj hp₃
            rw [hread (stops_cons rfl _)]
            show (parseMembers fuel p₄).map _ = _
            rw [ih hmembers (fun m hm => h m (List.mem_cons_of_mem _ hm)) _ hp₄]
            · rfl
            · rw [List.length_cons] at hfuel
              omega

/-- **An object of scalars that lost its end is not read.** -/
theorem parse_of_cut {members : List (GoString × Json)}
    (h : ∀ m ∈ members, m.2.Scalar) {p q : GoString}
    (hp : render (object members) = p ++ q) (hq : q ≠ []) : parse p = none := by
  have htext : render (object members) = 123 :: (renderMembers members ++ [125]) := rfl
  cases p with
  | nil => rfl
  | cons b p =>
    rw [htext] at hp
    obtain ⟨rfl, hrest⟩ := List.cons.inj hp
    have hread : ∀ fuel, p.length < fuel → parseValue (fuel + 1) (123 :: p) = none := by
      intro fuel hfuel
      by_cases hne : members = []
      · obtain rfl : p = [] := by
          rw [hne] at hrest
          obtain ⟨hp, _⟩ | ⟨_, hq'⟩ := List.append_eq_singleton_iff.mp hrest.symm
          · exact hp
          · exact absurd hq' hq
        cases fuel <;> rfl
      · have hbrace : expect 125 p = none := by
          cases p with
          | nil => rfl
          | cons b p =>
            obtain ⟨t, ht⟩ := exists_renderMembers hne
            rw [ht] at hrest
            obtain ⟨rfl, _⟩ := List.cons.inj hrest
            rfl
        have hspace : skipSpace (123 :: p) = 123 :: p := rfl
        rw [parseValue, hspace]
        dsimp only
        rw [if_neg (by decide), if_pos rfl, hbrace]
        dsimp only
        rw [parseMembers_of_cut hne h hfuel hrest hq]
        rfl
    have hnone : parseValue ((123 :: p).length + 1) (123 :: p) = none :=
      hread _ (Nat.lt_succ_self _)
    unfold parse
    rw [hnone]

/-- **An object that lost its brace is not read**, if it has members. -/
theorem parse_of_tail {members : List (GoString × Json)} (hne : members ≠ []) {s : GoString}
    (h : render (object members) = 123 :: s) : parse s = none := by
  obtain rfl : renderMembers members ++ [125] = s := (List.cons.inj h).2
  obtain ⟨key, t, ht⟩ : ∃ key t, renderMembers members ++ [125] = quote key ++ 58 :: t := by
    match members with
    | [] => exact absurd rfl hne
    | [(key, v)] => exact ⟨key, _, List.append_assoc (quote key) (58 :: render v) [125]⟩
    | (key, v) :: m :: members =>
      exact ⟨key, _, List.append_assoc (quote key)
        (58 :: (render v ++ 44 :: renderMembers (m :: members))) [125]⟩
  have hread : ∀ fuel, parseValue (fuel + 1) (quote key ++ 58 :: t)
      = some (string (GoString.coerced key), 58 :: t) := by
    intro fuel
    show ((expect quotation (quote key ++ 58 :: t)).bind (unquote 0)).map _ = _
    rw [expect_quote]
    rfl
  unfold parse
  rw [ht, hread]
  rfl

end Json
