import Mathlib
import WasmRedis.Foundation.GoString

/-!
# JSON strings

How Go's `encoding/json` writes and reads the strings of JSON, byte by byte. It
writes `\uXXXX` for the control characters, for `<`, `>` and `&` and for the two
line separators, and `\ufffd` for every byte that is not UTF-8; it reads every
escape of the language, and takes a byte that is not UTF-8 for `U+FFFD`.

A string is written rune by rune, and what is written for a rune is read back
as that rune, whatever follows it (`unquote_quoteRune`). So a string is read
back from its text, with `U+FFFD` for what was not UTF-8 in it
(`unquote_quoteFrom`), and nothing else than UTF-8 is ever read
(`isUTF8_of_unquote`).
-/

namespace Json

open GoString

/-! ## Texts -/

/-- `"`. -/
def quotation : UInt8 := 34

/-- `\`. -/
def backslash : UInt8 := 92

/-- The bytes written as a backslash and a letter, with the letter. -/
def escapes : List (UInt8 × UInt8) :=
  [(34, 34), (92, 92), (8, 98), (12, 102), (10, 110), (13, 114), (9, 116)]

/-- The letters that may follow a backslash, with the byte they stand for. -/
def letters : List (UInt8 × UInt8) :=
  [(34, 34), (92, 92), (47, 47), (98, 8), (102, 12), (110, 10), (114, 13), (116, 9)]

/-- A hexadecimal digit. -/
def hexDigit (n : ℕ) : UInt8 := UInt8.ofNat (if n < 10 then 48 + n else 87 + n)

/-- How a byte below 128 is written in a string. -/
def quoteAscii (b : UInt8) : GoString :=
  match escapes.lookup b with
  | some letter => [backslash, letter]
  | none =>
    if b < 32 ∨ b = 60 ∨ b = 62 ∨ b = 38 then
      [backslash, 117, 48, 48, hexDigit (b.toNat / 16), hexDigit (b.toNat % 16)]
    else [b]

/-- How a rune is written in a string. -/
def quoteRune (c : Char) : GoString :=
  if c.toNat < 128 then quoteAscii (UInt8.ofNat c.toNat)
  else if c.toNat = 0x2028 ∨ c.toNat = 0x2029 then
    [backslash, 117, 50, 48, 50, hexDigit (c.toNat % 16)]
  else runeBytes c

/-- The string from a position on; the first argument counts the bytes of the
rune just written that are still to be passed over. -/
def quoteFrom : ℕ → GoString → GoString
  | _, [] => []
  | skip + 1, _ :: s => quoteFrom skip s
  | 0, b :: s =>
    if decodeRune (b :: s) = ('\uFFFD', 1) then str "\\ufffd" ++ quoteFrom 0 s
    else quoteRune (decodeRune (b :: s)).1 ++ quoteFrom ((decodeRune (b :: s)).2 - 1) s

/-- The text of a string. -/
def quote (s : GoString) : GoString := quotation :: (quoteFrom 0 s ++ [quotation])

/-- The value of a hexadecimal digit. -/
def hexValue (b : UInt8) : Option ℕ :=
  if 48 ≤ b ∧ b ≤ 57 then some (b.toNat - 48)
  else if 97 ≤ b ∧ b ≤ 102 then some (b.toNat - 87)
  else if 65 ≤ b ∧ b ≤ 70 then some (b.toNat - 55)
  else none

/-- The number that four hexadecimal digits write. -/
def hex4 : GoString → Option ℕ
  | b₀ :: b₁ :: b₂ :: b₃ :: _ =>
    (hexValue b₀).bind fun d₀ => (hexValue b₁).bind fun d₁ =>
    (hexValue b₂).bind fun d₂ => (hexValue b₃).map fun d₃ =>
    4096 * d₀ + 256 * d₁ + 16 * d₂ + d₃
  | _ => none

/-- The rune of a `\u` escape, as bytes, and the bytes it takes after the
backslash: two escapes that are a surrogate pair are one rune, and a surrogate
alone is `U+FFFD`. -/
def unicode (s : GoString) : Option (GoString × ℕ) :=
  (hex4 s).map fun r =>
    if 0xD800 ≤ r ∧ r < 0xE000 then
      match s.drop 4 with
      | b :: b' :: s' =>
        match hex4 s' with
        | some r' =>
          if b = backslash ∧ b' = 117 ∧ r < 0xDC00 ∧ 0xDC00 ≤ r' ∧ r' < 0xE000 then
            (runeBytes (Char.ofNat (0x10000 + (r - 0xD800) * 0x400 + (r' - 0xDC00))), 11)
          else (runeBytes '\uFFFD', 5)
        | none => (runeBytes '\uFFFD', 5)
      | _ => (runeBytes '\uFFFD', 5)
    else (runeBytes (Char.ofNat r), 5)

/-- The escape that follows a backslash. -/
def unescape : GoString → Option (GoString × ℕ)
  | [] => none
  | b :: s =>
    match letters.lookup b with
    | some byte => some ([byte], 1)
    | none => if b = 117 then unicode s else none

/-- What a string has at a position, and the bytes it takes there. -/
def element (b : UInt8) (s : GoString) : Option (GoString × ℕ) :=
  if b = backslash then (unescape s).map (fun e => (e.1, e.2 + 1))
  else if b < 32 then none
  else some (runeBytes (decodeRune (b :: s)).1, (decodeRune (b :: s)).2)

/-- Reads a string from a position on, up to the quotation mark that ends it;
the first argument counts the bytes still to be passed over. -/
def unquote : ℕ → GoString → Option (GoString × GoString)
  | _, [] => none
  | skip + 1, _ :: s => unquote skip s
  | 0, b :: s =>
    if b = quotation then some ([], s)
    else
      match element b s with
      | none => none
      | some (bytes, width) => (unquote (width - 1) s).map (fun r => (bytes ++ r.1, r.2))

theorem hexValue_hexDigit : ∀ n < 16, hexValue (hexDigit n) = some n := by decide

/-- Only bytes from 32 on are written in a string. -/
theorem le_of_mem_quoteRune {c : Char} {b : UInt8} (hb : b ∈ quoteRune c) : 32 ≤ b.toNat := by
  have hdigit : ∀ n < 16, 32 ≤ (hexDigit n).toNat := by decide
  unfold quoteRune at hb
  split_ifs at hb with hascii hsep
  · generalize UInt8.ofNat c.toNat = a at hb
    have hlt : a.toNat < 256 := a.toNat_lt
    unfold quoteAscii at hb
    split at hb
    · next letter hletter =>
      have hmem : (a, letter) ∈ escapes := by
        obtain ⟨l₁, l₂, hsplit, _⟩ := List.lookup_eq_some_iff.mp hletter
        rw [hsplit]
        simp
      have hall : escapes.all (fun e => 32 ≤ e.2.toNat) = true := rfl
      rcases List.mem_pair.mp hb with rfl | rfl
      · decide
      · exact of_decide_eq_true (List.all_eq_true.mp hall _ hmem)
    · split_ifs at hb with hcontrol
      · simp only [List.mem_cons, List.not_mem_nil, or_false] at hb
        rcases hb with rfl | rfl | rfl | rfl | rfl | rfl
        · decide
        · decide
        · decide
        · decide
        · exact hdigit _ (by omega)
        · exact hdigit _ (by omega)
      · rw [List.mem_singleton.mp hb]
        exact not_lt.mp (fun h => hcontrol (.inl (UInt8.lt_iff_toNat_lt.mpr h)))
  · simp only [List.mem_cons, List.not_mem_nil, or_false] at hb
    rcases hb with rfl | rfl | rfl | rfl | rfl | rfl
    · decide
    · decide
    · decide
    · decide
    · decide
    · exact hdigit _ (by omega)
  · have hlong := le_of_mem_runeBytes (not_lt.mp hascii) hb
    omega

/-! ## Reading back -/

theorem quoteFrom_eq (skip : ℕ) (s : GoString) : quoteFrom skip s = quoteFrom 0 (s.drop skip) := by
  induction skip generalizing s with
  | zero => rfl
  | succ skip ih =>
    cases s with
    | nil => rfl
    | cons b s => exact ih s

theorem unquote_length (l s : GoString) : unquote l.length (l ++ s) = unquote 0 s := by
  induction l with
  | nil => rfl
  | cons b l ih => exact ih

theorem hex4_hexDigit {n₀ n₁ n₂ n₃ : ℕ} (h₀ : n₀ < 16) (h₁ : n₁ < 16) (h₂ : n₂ < 16)
    (h₃ : n₃ < 16) (s : GoString) :
    hex4 (hexDigit n₀ :: hexDigit n₁ :: hexDigit n₂ :: hexDigit n₃ :: s)
      = some (4096 * n₀ + 256 * n₁ + 16 * n₂ + n₃) := by
  simp only [hex4, hexValue_hexDigit _ h₀, hexValue_hexDigit _ h₁, hexValue_hexDigit _ h₂,
    hexValue_hexDigit _ h₃, Option.bind_some, Option.map_some]

/-- The escape of a rune, which is no surrogate. -/
theorem element_unicode {c : Char} {s : GoString} (h : hex4 s = some c.toNat) :
    element backslash (117 :: s) = some (runeBytes c, 6) := by
  have hc : ¬ (0xD800 ≤ c.toNat ∧ c.toNat < 0xE000) := by
    have hvalid : c.toNat < 0xD800 ∨ 0xDFFF < c.toNat ∧ c.toNat < 0x110000 := c.valid
    omega
  have hrune : unicode s = some (runeBytes c, 5) := by
    unfold unicode
    rw [h, Option.map_some, if_neg hc, Char.ofNat_toNat]
  have hletter : unescape (117 :: s) = unicode s := rfl
  unfold element
  rw [if_pos rfl, hletter, hrune]
  rfl

/-- **An element is read back as the rune it writes.** -/
theorem element_quoteRune (c : Char) : ∃ b l, quoteRune c = b :: l ∧ b ≠ quotation
    ∧ ∀ s, element b (l ++ s) = some (runeBytes c, (b :: l).length) := by
  by_cases hascii : c.toNat < 128
  · have hbytes := runeBytes_of_ascii hascii
    have hb : (UInt8.ofNat c.toNat).toNat = c.toNat := by
      rw [UInt8.toNat_ofNat']
      omega
    unfold quoteRune
    rw [if_pos hascii]
    generalize UInt8.ofNat c.toNat = b at hbytes hb
    unfold quoteAscii
    cases hletter : escapes.lookup b with
    | some letter =>
      refine ⟨backslash, [letter], rfl, by decide, fun s => ?_⟩
      have hmem : (b, letter) ∈ escapes := by
        obtain ⟨l₁, l₂, hsplit, _⟩ := List.lookup_eq_some_iff.mp hletter
        rw [hsplit]
        simp
      have hback : escapes.all (fun e => letters.lookup e.2 = some e.1) = true := rfl
      have hbyte : letters.lookup letter = some b :=
        of_decide_eq_true (List.all_eq_true.mp hback _ hmem)
      have hread : unescape (letter :: s) = some ([b], 1) := by simp only [unescape, hbyte]
      unfold element
      rw [if_pos rfl, List.singleton_append, hread, hbytes]
      rfl
    | none =>
      by_cases hcontrol : b < 32 ∨ b = 60 ∨ b = 62 ∨ b = 38
      · refine ⟨backslash, _, if_pos hcontrol, by decide, fun s => ?_⟩
        have hread := hex4_hexDigit (show 0 < 16 by decide) (show 0 < 16 by decide)
          (show b.toNat / 16 < 16 by omega) (show b.toNat % 16 < 16 by omega) s
        rw [show 4096 * 0 + 256 * 0 + 16 * (b.toNat / 16) + b.toNat % 16 = c.toNat by omega]
          at hread
        exact element_unicode hread
      · have hslash : b ≠ backslash := by
          rintro rfl
          exact absurd hletter (by decide)
        have hmark : b ≠ quotation := by
          rintro rfl
          exact absurd hletter (by decide)
        refine ⟨b, [], if_neg hcontrol, hmark, fun s => ?_⟩
        have hrune := decodeRune_append c s
        rw [hbytes] at hrune
        unfold element
        rw [if_neg hslash, if_neg (fun h => hcontrol (.inl h))]
        show some (runeBytes (decodeRune ([b] ++ s)).1, (decodeRune ([b] ++ s)).2) = _
        rw [hrune]
  · unfold quoteRune
    rw [if_neg hascii]
    by_cases hsep : c.toNat = 0x2028 ∨ c.toNat = 0x2029
    · refine ⟨backslash, _, if_pos hsep, by decide, fun s => ?_⟩
      have hread := hex4_hexDigit (show 2 < 16 by decide) (show 0 < 16 by decide)
        (show 2 < 16 by decide) (show c.toNat % 16 < 16 by omega) s
      rw [show 4096 * 2 + 256 * 0 + 16 * 2 + c.toNat % 16 = c.toNat by omega] at hread
      exact element_unicode hread
    · rw [if_neg hsep]
      obtain ⟨b, l, hbytes⟩ := List.exists_cons_of_ne_nil (runeBytes_ne_nil c)
      have hlong : 128 ≤ b.toNat :=
        le_of_mem_runeBytes (not_lt.mp hascii) (by rw [hbytes]; exact List.mem_cons_self)
      have hslash : b ≠ backslash := by
        rintro rfl
        exact absurd hlong (by decide)
      have hmark : b ≠ quotation := by
        rintro rfl
        exact absurd hlong (by decide)
      have hcontrol : ¬ b < 32 := by
        rw [UInt8.lt_iff_toNat_lt]
        exact not_lt.mpr (le_trans (by decide) hlong)
      refine ⟨b, l, hbytes, hmark, fun s => ?_⟩
      have hrune := decodeRune_append c s
      rw [hbytes, List.cons_append] at hrune
      unfold element
      rw [if_neg hslash, if_neg hcontrol, hrune]

/-- What is written for a rune is read back, before what follows. -/
theorem unquote_quoteRune (c : Char) (s : GoString) :
    unquote 0 (quoteRune c ++ s) = (unquote 0 s).map (fun r => (runeBytes c ++ r.1, r.2)) := by
  obtain ⟨b, l, hquote, hmark, hread⟩ := element_quoteRune c
  rw [hquote, List.cons_append]
  conv_lhs => unfold unquote
  rw [if_neg hmark, hread]
  show (unquote l.length (l ++ s)).map _ = _
  rw [unquote_length]

/-- The escape that stands for a byte that is not UTF-8. -/
theorem unquote_replaced (s : GoString) :
    unquote 0 (str "\\ufffd" ++ s)
      = (unquote 0 s).map (fun r => (runeBytes '\uFFFD' ++ r.1, r.2)) := by
  have htext : str "\\ufffd" = backslash :: [117, 102, 102, 102, 100] := by decide
  have hhex : hex4 (102 :: 102 :: 102 :: 100 :: s) = some ('\uFFFD').toNat :=
    hex4_hexDigit (show 15 < 16 by decide) (show 15 < 16 by decide) (show 15 < 16 by decide)
      (show 13 < 16 by decide) s
  rw [htext, List.cons_append]
  conv_lhs => unfold unquote
  rw [if_neg (by decide)]
  show (match element backslash (117 :: 102 :: 102 :: 102 :: 100 :: s) with
    | none => none
    | some (bytes, width) => _) = _
  rw [element_unicode hhex]
  rfl

/-- **A string is read back from its text**, with `U+FFFD` for what was not
UTF-8 in it. -/
theorem unquote_quoteFrom (s t : GoString) :
    unquote 0 (quoteFrom 0 s ++ quotation :: t) = some (coerced s, t) := by
  induction hlen : s.length using Nat.strongRecOn generalizing s with
  | ind n ih =>
    cases s with
    | nil => rfl
    | cons b s =>
      have hrest : ∀ k, unquote 0 (quoteFrom k s ++ quotation :: t)
          = some (encodeRunes (runesFrom k s), t) := by
        intro k
        rw [quoteFrom_eq, runesFrom_eq]
        refine ih _ ?_ (s.drop k) rfl
        rw [← hlen, List.length_drop, List.length_cons]
        omega
      rw [quoteFrom]
      show _ = some (runeBytes (decodeRune (b :: s)).1
        ++ encodeRunes (runesFrom ((decodeRune (b :: s)).2 - 1) s), t)
      split_ifs with hinvalid
      · rw [hinvalid, List.append_assoc, unquote_replaced, hrest]
        rfl
      · rw [List.append_assoc, unquote_quoteRune, hrest]
        rfl

/-! ## What is read and written -/

/-- Only bytes from 32 on are written in a string. -/
theorem le_of_mem_quoteFrom {skip : ℕ} {s : GoString} {b : UInt8} (hb : b ∈ quoteFrom skip s) :
    32 ≤ b.toNat := by
  fun_induction quoteFrom skip s with
  | case1 => exact absurd hb List.not_mem_nil
  | case2 skip _ s ih => exact ih hb
  | case3 c s _ ih =>
    obtain hb | hb := List.mem_append.mp hb
    · have hall : (str "\\ufffd").all (fun b => 32 ≤ b.toNat) = true := by decide
      exact of_decide_eq_true (List.all_eq_true.mp hall b hb)
    · exact ih hb
  | case4 c s _ ih =>
    obtain hb | hb := List.mem_append.mp hb
    · exact le_of_mem_quoteRune hb
    · exact ih hb

theorem isUTF8_of_unicode {s bytes : GoString} {width : ℕ} (h : unicode s = some (bytes, width)) :
    IsUTF8 bytes := by
  unfold unicode at h
  obtain ⟨r, _, hr⟩ := Option.map_eq_some_iff.mp h
  have hbytes : ∃ c, bytes = runeBytes c := by
    split_ifs at hr
    · split at hr
      · split at hr
        · split_ifs at hr
          all_goals exact ⟨_, (Prod.mk.inj hr).1.symm⟩
        · exact ⟨_, (Prod.mk.inj hr).1.symm⟩
      · exact ⟨_, (Prod.mk.inj hr).1.symm⟩
    · exact ⟨_, (Prod.mk.inj hr).1.symm⟩
  obtain ⟨c, rfl⟩ := hbytes
  exact isUTF8_runeBytes c

theorem isUTF8_of_unescape {s bytes : GoString} {width : ℕ}
    (h : unescape s = some (bytes, width)) : IsUTF8 bytes := by
  cases s with
  | nil => exact nomatch h
  | cons letter s =>
    rw [unescape] at h
    cases hbyte : letters.lookup letter with
    | some byte =>
      rw [hbyte] at h
      obtain rfl : [byte] = bytes := (Prod.mk.inj (Option.some.inj h)).1
      obtain ⟨l₁, l₂, hsplit, _⟩ := List.lookup_eq_some_iff.mp hbyte
      have hmem : (letter, byte) ∈ letters := by
        rw [hsplit]
        simp
      have hall : letters.all (fun e => IsUTF8 [e.2]) = true := by decide
      exact of_decide_eq_true (List.all_eq_true.mp hall _ hmem)
    | none =>
      rw [hbyte] at h
      dsimp only at h
      split_ifs at h
      exact isUTF8_of_unicode h

theorem isUTF8_of_element {b : UInt8} {s bytes : GoString} {width : ℕ}
    (h : element b s = some (bytes, width)) : IsUTF8 bytes := by
  unfold element at h
  split_ifs at h
  · obtain ⟨e, hescape, hb⟩ := Option.map_eq_some_iff.mp h
    obtain rfl := (Prod.mk.inj hb).1
    exact isUTF8_of_unescape hescape
  · obtain rfl := (Prod.mk.inj (Option.some.inj h)).1
    exact isUTF8_runeBytes _

/-- **Every string read is UTF-8.** -/
theorem isUTF8_of_unquote {skip : ℕ} {s text rest : GoString}
    (h : unquote skip s = some (text, rest)) : IsUTF8 text := by
  fun_induction unquote skip s generalizing text rest with
  | case1 => exact nomatch h
  | case2 skip _ s ih => exact ih h
  | case3 s =>
    obtain rfl := (Prod.mk.inj (Option.some.inj h)).1
    exact ⟨[], rfl⟩
  | case4 b s _ _ => exact nomatch h
  | case5 b s _ bytes width helement ih =>
    obtain ⟨⟨text', rest'⟩, hread, hr⟩ := Option.map_eq_some_iff.mp h
    obtain rfl := (Prod.mk.inj hr).1
    exact (isUTF8_of_element helement).append (ih hread)

end Json
