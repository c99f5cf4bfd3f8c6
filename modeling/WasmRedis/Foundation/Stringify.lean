import WasmRedis.Foundation.Json

/-!
# `JSON.stringify`

How a browser writes an object whose one member is a string. It escapes less than
Go does: the quotation mark, the backslash and the control characters, and nothing
else. What it writes is read back by Go's decoder as the same object, for every text
that a string of the browser can be without a surrogate that stands alone
(`parse_stringifyMember`).

A text that was typed has at most three bytes for each of the units that the browser
counts it by (`length_stringify`).
-/

namespace Json

open GoString

/-! ## Texts -/

/-- How a rune is written in a string. -/
def stringifyRune (c : Char) : GoString :=
  if c.toNat < 128 then
    match escapes.lookup (UInt8.ofNat c.toNat) with
    | some letter => [backslash, letter]
    | none =>
      if c.toNat < 32 then
        [backslash, 117, 48, 48, hexDigit (c.toNat / 16), hexDigit (c.toNat % 16)]
      else runeBytes c
  else runeBytes c

/-- The text of a string. -/
def stringify (s : GoString) : GoString :=
  quotation :: ((runes s).flatMap stringifyRune ++ [quotation])

/-- The text of an object with one member, which is a string. -/
def stringifyMember (key s : GoString) : GoString :=
  123 :: (stringify key ++ 58 :: (stringify s ++ [125]))

/-! ## Reading back -/

/-- A rune that is written as it is. -/
theorem unquote_runeBytes {c : Char} (h : 32 ≤ c.toNat) (hmark : c.toNat ≠ quotation.toNat)
    (hslash : c.toNat ≠ backslash.toNat) (s : GoString) :
    unquote 0 (runeBytes c ++ s) = (unquote 0 s).map (fun r => (runeBytes c ++ r.1, r.2)) := by
  obtain ⟨b, l, hbytes⟩ := List.exists_cons_of_ne_nil (runeBytes_ne_nil c)
  -- the first byte is the rune, or one of a longer rune
  have hfirst : b.toNat = c.toNat ∨ 128 ≤ b.toNat := by
    by_cases hascii : c.toNat < 128
    · rw [runeBytes_of_ascii hascii] at hbytes
      obtain ⟨rfl, _⟩ := List.cons.inj hbytes
      exact Or.inl (by rw [UInt8.toNat_ofNat']; omega)
    · exact Or.inr (le_of_mem_runeBytes (not_lt.mp hascii)
        (by rw [hbytes]; exact List.mem_cons_self))
  have hne : ∀ a : UInt8, c.toNat ≠ a.toNat → a.toNat < 128 → b ≠ a := by
    rintro a ha hlt rfl
    obtain heq | hlong := hfirst
    · exact ha heq.symm
    · omega
  have hcontrol : ¬ b < 32 := by
    rw [UInt8.lt_iff_toNat_lt]
    have : (32 : UInt8).toNat = 32 := rfl
    omega
  have hread : element b (l ++ s) = some (runeBytes c, (b :: l).length) := by
    have hrune := decodeRune_append c s
    rw [hbytes, List.cons_append] at hrune
    unfold element
    rw [if_neg (hne backslash hslash (by decide)), if_neg hcontrol, hrune]
  rw [hbytes, List.cons_append]
  conv_lhs => unfold unquote
  rw [if_neg (hne quotation hmark (by decide)), hread, hbytes]
  show (unquote l.length (l ++ s)).map _ = _
  rw [unquote_length]

/-- **What is written for a rune is read back**, before what follows. -/
theorem unquote_stringifyRune (c : Char) (s : GoString) :
    unquote 0 (stringifyRune c ++ s)
      = (unquote 0 s).map (fun r => (runeBytes c ++ r.1, r.2)) := by
  by_cases hascii : c.toNat < 128
  · have hb : (UInt8.ofNat c.toNat).toNat = c.toNat := by
      rw [UInt8.toNat_ofNat']
      omega
    -- what both escape, both write alike
    have hquote : quoteRune c = quoteAscii (UInt8.ofNat c.toNat) := if_pos hascii
    have hread := unquote_quoteRune c s
    rw [hquote] at hread
    unfold quoteAscii at hread
    unfold stringifyRune
    rw [if_pos hascii]
    cases hletter : escapes.lookup (UInt8.ofNat c.toNat) with
    | some letter =>
      rw [hletter] at hread
      exact hread
    | none =>
      rw [hletter] at hread
      dsimp only at hread ⊢
      by_cases hcontrol : c.toNat < 32
      · have hlt : UInt8.ofNat c.toNat < 32 := by
          rw [UInt8.lt_iff_toNat_lt, hb]
          exact hcontrol
        rw [if_pos (Or.inl hlt), hb] at hread
        rw [if_pos hcontrol]
        exact hread
      · have hne : ∀ a : UInt8, escapes.lookup a ≠ none → c.toNat ≠ a.toNat := by
          intro a ha heq
          refine ha ?_
          rw [show a = UInt8.ofNat c.toNat from UInt8.toNat_inj.mp (heq.symm.trans hb.symm)]
          exact hletter
        rw [if_neg hcontrol]
        exact unquote_runeBytes (not_lt.mp hcontrol) (hne quotation (by decide))
          (hne backslash (by decide)) s
  · have hne : ∀ a : UInt8, a.toNat < 128 → c.toNat ≠ a.toNat := fun a ha heq => hascii (heq ▸ ha)
    unfold stringifyRune
    rw [if_neg hascii]
    exact unquote_runeBytes (by omega) (hne quotation (by decide)) (hne backslash (by decide)) s

/-- **A string is read back from its text.** -/
theorem unquote_stringify {s : GoString} (h : IsUTF8 s) (t : GoString) :
    unquote 0 ((runes s).flatMap stringifyRune ++ quotation :: t) = some (s, t) := by
  obtain ⟨chars, rfl⟩ := h
  rw [runes_encodeRunes]
  induction chars with
  | nil => rfl
  | cons c chars ih =>
    rw [List.flatMap_cons, List.append_assoc, unquote_stringifyRune, ih, encodeRunes_cons]
    rfl

/-- **An object with one member is read back from its text.** -/
theorem parse_stringifyMember {key s : GoString} (hkey : IsUTF8 key) (hs : IsUTF8 s) :
    parse (stringifyMember key s) = some (.object [(key, .string s)]) := by
  have hread : ∀ {text : GoString}, IsUTF8 text → ∀ t,
      (expect quotation (stringify text ++ t)).bind (unquote 0) = some (text, t) := by
    intro text htext t
    show unquote 0 (((runes text).flatMap stringifyRune ++ [quotation]) ++ t) = _
    rw [List.append_assoc]
    exact unquote_stringify htext t
  have hvalue : ∀ fuel t, parseValue (fuel + 1) (stringify s ++ t) = some (.string s, t) := by
    intro fuel t
    show (unquote 0 (((runes s).flatMap stringifyRune ++ [quotation]) ++ t)).map _ = _
    rw [List.append_assoc]
    show (unquote 0 ((runes s).flatMap stringifyRune ++ quotation :: t)).map _ = _
    rw [unquote_stringify hs]
    rfl
  have hmembers : ∀ fuel, parseMembers (fuel + 2) (stringify key ++ 58 :: (stringify s ++ [125]))
      = some ([(key, .string s)], []) := by
    intro fuel
    have hcolon : (expect 58 (58 :: (stringify s ++ [125]))).bind (parseValue (fuel + 1))
        = some (.string s, [125]) := hvalue fuel [125]
    rw [parseMembers, hread hkey]
    dsimp only
    rw [hcolon]
    rfl
  have hobject : ∀ fuel, parseValue (fuel + 3) (stringifyMember key s)
      = some (.object [(key, .string s)], []) := by
    intro fuel
    have hmember : expect 125 (stringify key ++ 58 :: (stringify s ++ [125])) = none := rfl
    have hspace : skipSpace (stringifyMember key s)
        = 123 :: (stringify key ++ 58 :: (stringify s ++ [125])) := rfl
    have hbrace : (123 : UInt8) ≠ quotation := by decide
    rw [parseValue, hspace]
    dsimp only
    rw [if_neg hbrace, if_pos rfl, hmember]
    dsimp only
    rw [hmembers]
    rfl
  obtain ⟨fuel, hfuel⟩ : ∃ fuel, (stringifyMember key s).length + 1 = fuel + 3 := by
    refine ⟨(stringify key ++ (stringify s ++ [125])).length, ?_⟩
    unfold stringifyMember
    simp only [List.length_cons, List.length_append]
    omega
  unfold parse
  rw [hfuel, hobject]
  rfl

/-! ## Lengths -/

/-- The length of a string for the browser, which counts units of 16 bits. -/
def utf16Length (s : GoString) : ℕ :=
  ((runes s).map (fun c => if c.toNat < 0x10000 then 1 else 2)).sum

/-- A text that can be typed: UTF-8, with no control characters but tabulations and the
ends of lines. -/
def Typed (s : GoString) : Prop :=
  IsUTF8 s ∧ ∀ c ∈ runes s, 32 ≤ c.toNat ∨ c ∈ ['\n', '\r', '\t']

/-- A rune takes at most three bytes for each of its units. -/
theorem length_stringifyRune {c : Char} (h : 32 ≤ c.toNat ∨ c ∈ ['\n', '\r', '\t']) :
    (stringifyRune c).length ≤ 3 * (if c.toNat < 0x10000 then 1 else 2) := by
  have hbytes : (runeBytes c).length ≤ 3 * (if c.toNat < 0x10000 then 1 else 2) := by
    have hsize : (runeBytes c).length = c.utf8Size := String.length_utf8EncodeChar c
    have hrune : c.val.toNat = c.toNat := rfl
    rw [hsize]
    unfold Char.utf8Size
    simp only [UInt32.le_iff_toNat_le, hrune, UInt32.toNat_ofNatLT]
    split_ifs <;> omega
  obtain h | h := h
  · unfold stringifyRune
    by_cases hascii : c.toNat < 128
    · have hunit : c.toNat < 0x10000 := by omega
      rw [if_pos hunit] at hbytes ⊢
      rw [if_pos hascii]
      cases escapes.lookup (UInt8.ofNat c.toNat) with
      | some letter => exact show 2 ≤ 3 by decide
      | none =>
        dsimp only
        rw [if_neg (not_lt.mpr h)]
        exact hbytes
    · rw [if_neg hascii]
      exact hbytes
  · simp only [List.mem_cons, List.not_mem_nil, or_false] at h
    obtain rfl | rfl | rfl := h <;> decide

/-- **A text that was typed takes at most three bytes for each of its units**, and two. -/
theorem length_stringify {s : GoString} (h : Typed s) :
    (stringify s).length ≤ 3 * utf16Length s + 2 := by
  obtain ⟨⟨chars, rfl⟩, h⟩ := h
  unfold stringify utf16Length
  rw [runes_encodeRunes] at h ⊢
  have hchars : (chars.flatMap stringifyRune).length
      ≤ 3 * (chars.map (fun c => if c.toNat < 0x10000 then 1 else 2)).sum := by
    induction chars with
    | nil => exact Nat.zero_le _
    | cons c chars ih =>
      obtain ⟨hc, hrest⟩ := List.forall_mem_cons.mp h
      have hrune := length_stringifyRune hc
      have hchars := ih hrest
      rw [List.flatMap_cons, List.map_cons, List.sum_cons, List.length_append]
      omega
  rw [List.length_cons, List.length_append, List.length_singleton]
  omega

end Json
