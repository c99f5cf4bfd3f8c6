import Mathlib

/-!
# Go strings

A Go string is a sequence of bytes, valid UTF-8 or not, ordered byte by byte.
This module fixes that reading – `GoString` is a list of bytes – and defines
the functions of the standard library on it that a program verified here
calls, under Go's own names: `strings.Contains`, `strings.Trim` with an ASCII
cutset, `sort.Strings`, and the `range` loop over the runes of a string, which
yields `U+FFFD` for every byte that starts no valid encoding.
-/

/-- Bytes are ordered as numbers. -/
instance UInt8.linearOrder : LinearOrder UInt8 where
  le_refl := UInt8.le_refl
  le_trans := fun _ _ _ => UInt8.le_trans
  le_antisymm := fun _ _ => UInt8.le_antisymm
  le_total := UInt8.le_total
  lt_iff_le_not_ge := fun a b => by
    rw [UInt8.lt_iff_toNat_lt, UInt8.le_iff_toNat_le, UInt8.le_iff_toNat_le]
    omega
  toDecidableLE := inferInstance
  toDecidableEq := inferInstance
  toDecidableLT := inferInstance

/-- A Go string: its bytes. -/
abbrev GoString := List UInt8

namespace GoString

/-- The Go string of a literal: its UTF-8 bytes. -/
def str (s : String) : GoString := s.toUTF8.data.toList

/-- Whether a string is one of a list, as a `switch` on it decides. -/
instance decidableMem (s : GoString) (l : List GoString) : Decidable (s ∈ l) :=
  List.instDecidableMemOfLawfulBEq s l

/-- `strings.Contains(s, sub)`. -/
def contains (s sub : GoString) : Bool := decide (sub <:+: s)

/-- `strings.Trim(s, cutset)` for a cutset of ASCII characters: the bytes of
the cutset are removed at both ends, and only there. -/
def trim (s cutset : GoString) : GoString :=
  (s.dropWhile (· ∈ cutset)).rdropWhile (· ∈ cutset)

/-- **Trimming leaves nothing exactly when every byte is in the cutset**, which
is what makes a test of the trimmed string a test of the whole string. -/
theorem trim_eq_nil_iff (s cutset : GoString) :
    trim s cutset = [] ↔ ∀ b ∈ s, b ∈ cutset := by
  unfold trim
  rw [List.rdropWhile_eq_nil_iff]
  constructor
  · intro h b hb
    have hne : s.dropWhile (· ∈ cutset) = [] := by
      by_contra he
      have hhead := List.head_dropWhile_not (fun x => decide (x ∈ cutset)) he
      rw [h _ (List.head_mem he)] at hhead
      exact Bool.noConfusion hhead
    exact of_decide_eq_true (List.dropWhile_eq_nil_iff.mp hne b hb)
  · intro h b hb
    exact decide_eq_true (h b ((List.dropWhile_sublist _).subset hb))

/-- `sort.Strings(xs)`: the bytewise order. -/
def sortStrings (xs : List GoString) : List GoString := xs.insertionSort (· ≤ ·)

theorem mem_sortStrings {xs : List GoString} {x : GoString} :
    x ∈ sortStrings xs ↔ x ∈ xs :=
  List.mem_insertionSort _

/-- Sorting strings that are all different gives a strictly increasing list. -/
theorem sortStrings_strict {xs : List GoString} (h : xs.Nodup) :
    (sortStrings xs).Pairwise (· < ·) := by
  have hsort : (sortStrings xs).Pairwise (· ≤ ·) := List.pairwise_insertionSort _ xs
  have hnd : (sortStrings xs).Nodup := (List.perm_insertionSort _ xs).nodup_iff.mpr h
  exact (hsort.and hnd).imp (fun hab => lt_of_le_of_ne hab.1 hab.2)

/-! ## Runes -/

/-- `utf8.DecodeRuneInString`: the first rune of a non-empty string and its
width, `U+FFFD` and one byte where no valid encoding starts. -/
def decodeRune (s : GoString) : Char × ℕ :=
  match s.toByteArray.utf8DecodeChar? 0 with
  | some c => (c, c.utf8Size)
  | none => ('\uFFFD', 1)

/-- The runes from a position on; the first argument counts the bytes of the
rune just read that are still to be passed over. -/
def runesFrom : ℕ → GoString → List Char
  | _, [] => []
  | 0, b :: s => (decodeRune (b :: s)).1 :: runesFrom ((decodeRune (b :: s)).2 - 1) s
  | skip + 1, _ :: s => runesFrom skip s

/-- The runes `for _, char := range s` visits. -/
def runes (s : GoString) : List Char := runesFrom 0 s

/-- `WriteRune`: the UTF-8 bytes of a rune. -/
def runeBytes (c : Char) : GoString := String.utf8EncodeChar c

/-- `unicode.IsSpace`. -/
def isSpace (c : Char) : Bool :=
  c ∈ ['\t', '\n', '\x0b', '\x0c', '\r', ' ', '\u0085', '\u00a0', '\u1680', '\u2028', '\u2029',
    '\u202f', '\u205f', '\u3000'] || ('\u2000' ≤ c && c ≤ '\u200a')

/-- `strings.TrimSpace(s) == ""`: every rune of the string is a space. -/
def isBlank (s : GoString) : Bool := (runes s).all isSpace

/-- `strings.TrimSpace(s)`. -/
def trimSpace (s : GoString) : GoString :=
  let rest := s.drop (((runes s).takeWhile isSpace).flatMap runeBytes).length
  rest.take (rest.length - (((runes rest).rtakeWhile isSpace).flatMap runeBytes).length)

/-- The UTF-8 text of some runes. -/
def encodeRunes (chars : List Char) : GoString := chars.flatMap runeBytes

/-- `utf8.ValidString(s)`. -/
def IsUTF8 (s : GoString) : Prop := ∃ chars, s = encodeRunes chars

@[simp] theorem encodeRunes_nil : encodeRunes [] = [] := rfl

@[simp] theorem encodeRunes_cons (c : Char) (chars : List Char) :
    encodeRunes (c :: chars) = runeBytes c ++ encodeRunes chars := rfl

/-- The string of a literal is valid. -/
theorem isUTF8_str (s : String) : IsUTF8 (str s) := by
  refine ⟨s.toList, ?_⟩
  have hbytes : s.toByteArray = (encodeRunes s.toList).toByteArray := String.utf8Encode_toList.symm
  unfold str
  rw [String.toUTF8_eq_toByteArray, hbytes, List.data_toByteArray]

theorem runeBytes_ne_nil (c : Char) : runeBytes c ≠ [] := String.utf8EncodeChar_ne_nil

theorem runeBytes_of_ascii {c : Char} (h : c.toNat < 128) : runeBytes c = [UInt8.ofNat c.toNat] :=
  if_pos (Nat.le_of_lt_succ h)

/-- No byte of a longer encoding is an ASCII character. -/
theorem le_of_mem_runeBytes {c : Char} (h : 128 ≤ c.toNat) {b : UInt8} (hb : b ∈ runeBytes c) :
    128 ≤ b.toNat := by
  unfold runeBytes String.utf8EncodeChar at hb
  have hc : c.val.toNat = c.toNat := rfl
  rw [hc] at hb
  dsimp only at hb
  rw [if_neg (by omega)] at hb
  split_ifs at hb
  all_goals
    simp only [List.mem_cons, List.not_mem_nil, or_false] at hb
    rcases hb with rfl | rfl | rfl | rfl
    all_goals
      rw [UInt8.toNat_ofNat']
      omega

/-- The first rune of a text is the one it starts with. -/
theorem decodeRune_append (c : Char) (s : GoString) :
    decodeRune (runeBytes c ++ s) = (c, (runeBytes c).length) := by
  unfold decodeRune runeBytes
  rw [List.toByteArray_append, ByteArray.utf8DecodeChar?_utf8EncodeChar_append,
    String.length_utf8EncodeChar]

theorem runesFrom_eq (skip : ℕ) (s : GoString) : runesFrom skip s = runes (s.drop skip) := by
  induction skip generalizing s with
  | zero => rw [List.drop_zero, runes]
  | succ skip ih =>
    cases s with
    | nil => rfl
    | cons b s => exact ih s

/-- The runes of a text are those it was made of. -/
theorem runes_encodeRunes (chars : List Char) : runes (encodeRunes chars) = chars := by
  induction chars with
  | nil => rfl
  | cons c chars ih =>
    obtain ⟨b, l, hbytes⟩ := List.exists_cons_of_ne_nil (runeBytes_ne_nil c)
    have hrune := decodeRune_append c (encodeRunes chars)
    rw [encodeRunes_cons]
    rw [hbytes, List.cons_append] at hrune ⊢
    show (decodeRune _).1 :: runesFrom ((decodeRune _).2 - 1) (l ++ encodeRunes chars) = _
    rw [hrune, runesFrom_eq, List.length_cons, Nat.add_sub_cancel, List.drop_left, ih]

/-- The string with `U+FFFD` for each of its bytes that is not UTF-8. -/
def coerced (s : GoString) : GoString := encodeRunes (runes s)

theorem isUTF8_coerced (s : GoString) : IsUTF8 (coerced s) := ⟨runes s, rfl⟩

theorem coerced_of_isUTF8 {s : GoString} (h : IsUTF8 s) : coerced s = s := by
  obtain ⟨chars, rfl⟩ := h
  rw [coerced, runes_encodeRunes]

theorem isUTF8_iff (s : GoString) : IsUTF8 s ↔ coerced s = s :=
  ⟨coerced_of_isUTF8, fun h => h ▸ isUTF8_coerced s⟩

instance (s : GoString) : Decidable (IsUTF8 s) := decidable_of_iff _ (isUTF8_iff s).symm

theorem IsUTF8.append {s t : GoString} (hs : IsUTF8 s) (ht : IsUTF8 t) : IsUTF8 (s ++ t) := by
  obtain ⟨chars, rfl⟩ := hs
  obtain ⟨chars', rfl⟩ := ht
  exact ⟨chars ++ chars', List.flatMap_append.symm⟩

theorem isUTF8_runeBytes (c : Char) : IsUTF8 (runeBytes c) := ⟨[c], (List.append_nil _).symm⟩

example : runes [0x61, 0xc3, 0xa9, 0xff, 0xc3] = ['a', 'é', '\uFFFD', '\uFFFD'] := by decide

end GoString
