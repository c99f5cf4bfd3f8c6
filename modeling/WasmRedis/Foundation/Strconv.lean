import Mathlib
import WasmRedis.Foundation.GoString

/-!
# Numbers read from and written to text

A program that reads floating-point numbers from text needs of them only which
texts are numbers, which of those are finite, and how the finite ones compare.
`R` is the ordered set of the finite values; the two zeros are one value of
`R`, but two floats, since formatting tells them apart. `ParseFloat` and
`FormatFloat` are parameters (`Strconv`), on which nothing is assumed.
-/

/-- A float over the ordered set `R` of the finite values. -/
inductive GoFloat (R : Type) where
  /-- `NaN`. -/
  | nan : GoFloat R
  /-- An infinity, with its sign. -/
  | inf : Bool → GoFloat R
  /-- `-0`. -/
  | negZero : GoFloat R
  /-- A finite value; `0` is the positive zero. -/
  | finite : R → GoFloat R
  deriving DecidableEq

namespace GoFloat

variable {R : Type}

/-- `math.IsNaN(n)`. -/
def isNaN : GoFloat R → Bool
  | nan => true
  | _ => false

/-- `math.IsInf(n, 0)`. -/
def isInf : GoFloat R → Bool
  | inf _ => true
  | _ => false

/-- `n == 0`, which both zeros satisfy. -/
def isZero [Zero R] [DecidableEq R] : GoFloat R → Bool
  | negZero => true
  | finite x => x = 0
  | _ => false

/-- The place of a finite float in the order; the others have none. -/
def toNumber [Zero R] : GoFloat R → R
  | finite x => x
  | _ => 0

end GoFloat

/-- `strconv`, at a type `R` of finite values. -/
class Strconv (R : Type) where
  /-- `strconv.ParseFloat(text, 64)`; `none` is an error. -/
  parseFloat : GoString → Option (GoFloat R)
  /-- `strconv.FormatFloat(n, 'g', -1, 64)`. -/
  formatFloat : GoFloat R → GoString

namespace Strconv

variable (R : Type) [Strconv R]

/-- The test `err != nil || math.IsNaN(n) || math.IsInf(n, 0)` that guards
every use of a number, passed. -/
def isFiniteNumber (text : GoString) : Bool :=
  match (parseFloat text : Option (GoFloat R)) with
  | none => false
  | some n => !(n.isNaN || n.isInf)

end Strconv

/-- The text functions a command parser calls and that depend on the Unicode
tables or on the grammar of durations. -/
class TextLib where
  /-- `strings.ToUpper`. -/
  toUpper : GoString → GoString
  /-- `strings.ToLower`. -/
  toLower : GoString → GoString
  /-- `strings.EqualFold`. -/
  equalFold : GoString → GoString → Bool
  /-- `time.ParseDuration`, in nanoseconds; `none` is an error. -/
  parseDuration : GoString → Option ℤ

/-! ## Decimal numbers -/

namespace Strconv

/-- The text of a natural number. -/
def decimal (n : ℕ) : GoString := (Nat.toDigits 10 n).map (fun c => c.toNat.toUInt8)

/-- The natural number a text of digits reads as. -/
def ofDecimal (text : GoString) : Option ℕ :=
  if text ≠ [] ∧ text.all (fun b => decide (48 ≤ b ∧ b ≤ 57)) then
    some (text.foldl (fun n b => 10 * n + (b.toNat - 48)) 0)
  else none

/-- `strconv.Atoi(text)`, on 64 bits; `none` is an error. -/
def atoi (text : GoString) : Option ℤ :=
  let number := match text with
    | [] => none
    | b :: digits =>
      if b = 45 then (ofDecimal digits).map (fun n : ℕ => -(n : ℤ))
      else if b = 43 then (ofDecimal digits).map Nat.cast
      else (ofDecimal (b :: digits)).map Nat.cast
  number.filter (fun n => -2 ^ 63 ≤ n ∧ n < 2 ^ 63)

theorem toNat_of_mem_toDigits {n : ℕ} {c : Char} (hc : c ∈ Nat.toDigits 10 n) :
    48 ≤ c.toNat ∧ c.toNat ≤ 57 :=
  Char.isDigit_iff_toNat.mp (Nat.isDigit_of_mem_toDigits (by decide) (by decide) hc)

theorem isDigit_of_mem_decimal {n : ℕ} {b : UInt8} (hb : b ∈ decimal n) : 48 ≤ b ∧ b ≤ 57 := by
  obtain ⟨c, hc, rfl⟩ := List.mem_map.mp hb
  obtain ⟨hlow, hhigh⟩ := toNat_of_mem_toDigits hc
  rw [UInt8.le_iff_toNat_le, UInt8.le_iff_toNat_le, UInt8.toNat_ofNat']
  constructor
  · show 48 ≤ c.toNat % 256
    omega
  · show c.toNat % 256 ≤ 57
    omega

theorem decimal_ne_nil (n : ℕ) : decimal n ≠ [] := by
  unfold decimal
  exact fun h => Nat.toDigits_ne_nil (List.map_eq_nil_iff.mp h)

theorem length_decimal_le {n k : ℕ} (hk : 0 < k) (hn : n < 10 ^ k) : (decimal n).length ≤ k := by
  unfold decimal
  rw [List.length_map]
  exact (Nat.length_toDigits_le_iff (by decide) hk).mpr hn

/-- **A natural number is read back from its text.** -/
theorem ofDecimal_decimal (n : ℕ) : ofDecimal (decimal n) = some n := by
  have hdigits : (decimal n).all (fun b => decide (48 ≤ b ∧ b ≤ 57)) = true :=
    List.all_eq_true.mpr (fun b hb => decide_eq_true (isDigit_of_mem_decimal hb))
  unfold ofDecimal
  rw [if_pos ⟨decimal_ne_nil n, hdigits⟩]
  refine congrArg some ?_
  unfold decimal
  rw [List.foldl_map]
  calc (Nat.toDigits 10 n).foldl (fun m c => 10 * m + (c.toNat.toUInt8.toNat - 48)) 0
      = (Nat.toDigits 10 n).foldl (fun m c => 10 * m + (c.toNat - '0'.toNat)) 0 := by
        refine List.foldl_ext _ _ _ (fun m c hc => ?_)
        obtain ⟨_, hhigh⟩ := toNat_of_mem_toDigits hc
        show 10 * m + (c.toNat % 256 - 48) = _
        rw [Nat.mod_eq_of_lt (by omega)]
        rfl
    _ = n := Nat.ofDigitChars_ten_toDigits

/-- A natural number is read back by `Atoi`, unless it is too large. -/
theorem atoi_decimal (n : ℕ) :
    atoi (decimal n) = if n < 2 ^ 63 then some (n : ℤ) else none := by
  obtain ⟨b, digits, hdecimal⟩ := List.exists_cons_of_ne_nil (decimal_ne_nil n)
  have hread := ofDecimal_decimal n
  have hdigit : 48 ≤ b := (isDigit_of_mem_decimal (hdecimal ▸ List.mem_cons_self)).1
  have hminus : b ≠ 45 := by
    rintro rfl
    exact absurd hdigit (by decide)
  have hplus : b ≠ 43 := by
    rintro rfl
    exact absurd hdigit (by decide)
  unfold atoi
  rw [hdecimal] at hread ⊢
  dsimp only
  rw [if_neg hminus, if_neg hplus, hread, Option.map_some, Option.filter_some]
  split_ifs with hrange hlt hlt
  · rfl
  · simp only [decide_eq_true_eq] at hrange
    omega
  · simp only [decide_eq_true_eq] at hrange
    omega
  · rfl

/-- The first digit of a positive number is not `0`. -/
theorem head?_decimal_ne {n : ℕ} (hn : 0 < n) : (decimal n).head? ≠ some 48 := by
  induction n using Nat.strongRecOn with
  | ind n ih =>
    unfold decimal at ih ⊢
    rw [Nat.toDigits_eq_if (by decide)]
    split_ifs with hlt
    · have hdigit : ∀ d < 10, 0 < d → (Nat.digitChar d).toNat.toUInt8 ≠ 48 := by decide
      exact fun h => hdigit n hlt hn (Option.some.inj h)
    · have hdiv : 0 < n / 10 := Nat.div_pos (not_lt.mp hlt) (by decide)
      have hhead := ih (n / 10) (Nat.div_lt_self hn (by decide)) hdiv
      have hne := decimal_ne_nil (n / 10)
      unfold decimal at hne
      rwa [List.map_append, List.head?_append_of_ne_nil _ hne]

/-- The numbers of a program that only ever writes natural numbers in decimal. -/
instance : Strconv ℕ where
  parseFloat text := (ofDecimal text).map .finite
  formatFloat
    | .nan => [78, 97, 78]
    | .inf negative => if negative then [45, 73, 110, 102] else [43, 73, 110, 102]
    | .negZero => [45, 48]
    | .finite n => decimal n

end Strconv

/-- The text functions of a program that only ever meets ASCII, and durations in
whole seconds. -/
@[reducible] def TextLib.ascii : TextLib where
  toUpper text := text.map (fun b => if 97 ≤ b ∧ b ≤ 122 then b - 32 else b)
  toLower text := text.map (fun b => if 65 ≤ b ∧ b ≤ 90 then b + 32 else b)
  equalFold text other :=
    text.map (fun b => if 97 ≤ b ∧ b ≤ 122 then b - 32 else b)
      = other.map (fun b => if 97 ≤ b ∧ b ≤ 122 then b - 32 else b)
  parseDuration text :=
    if text.getLast? = some 115 then
      (Strconv.ofDecimal text.dropLast).bind (fun n =>
        if n * 10 ^ 9 < 2 ^ 63 then some (n * 10 ^ 9 : ℤ) else none)
    else none

/-- What the documentation of `time.ParseDuration` says of whole seconds: they are read
exactly, a duration that does not fit in 64 bits is an error, and so is a unit with no
number. -/
class TextLib.Seconds [TextLib] : Prop where
  /-- A number of seconds. -/
  parseDuration_seconds {text : GoString} {n : ℕ} (h : Strconv.ofDecimal text = some n) :
    TextLib.parseDuration (text ++ GoString.str "s")
      = if n * 10 ^ 9 < 2 ^ 63 then some (n * 10 ^ 9 : ℤ) else none
  /-- No number. -/
  parseDuration_unit : TextLib.parseDuration (GoString.str "s") = none

instance TextLib.ascii_seconds : @TextLib.Seconds TextLib.ascii :=
  @TextLib.Seconds.mk TextLib.ascii
    (fun {text n} h => by
      have hunit : GoString.str "s" = [115] := by decide
      show (if (text ++ GoString.str "s").getLast? = some 115 then _ else _) = _
      rw [hunit, List.getLast?_concat, if_pos rfl, List.dropLast_concat, h,
        Option.bind_some])
    (by decide)
