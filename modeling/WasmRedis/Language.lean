import WasmRedis.Command

/-!
# The command language

`Denotes` is the language of the commands, one constructor for each form: the tokens of
the form and the command they are. `parse` decides it (`parse_ok_iff`). The forms of GET
are the delicate ones: `GET WHERE` alone reads the key `WHERE`, and with more tokens
after it asks a query.

The seconds of an expiration are tested by trimming the digits off the token, and read by
`time.ParseDuration`, which refuses what does not fit; together these accept the texts of
digits that read as a number of seconds from 1 to `9223372036`
(`parseExpiration_ok_iff`).
-/

namespace WasmRedis

open GoString

/-! ## The language -/

section Language

variable (R : Type) [Strconv R]

/-- A token is a number: it is not quoted and denotes a finite one. -/
def IsNumber (value : Token) : Prop :=
  value.quoted = false
    ∧ ∃ n : GoFloat R, Strconv.parseFloat value.text = some n
      ∧ n ≠ .nan ∧ ∀ negative, n ≠ .inf negative

/-- The operators of a GET WHERE. -/
def operators : List GoString :=
  [str "equals", str "contains", str ">", str ">=", str "<", str "<="]

/-- The most seconds that fit in a duration. -/
def maxSeconds : ℕ := 9223372036

variable [TextLib]

/-- **The command language**: the tokens of a command, and the command. -/
inductive Denotes : List Token → Command → Prop
  /-- `SET k v`. -/
  | set {name key value : Token} {isNumber : Bool}
      (keyword : TextLib.toUpper name.text = str "SET")
      (number : isNumber = true ↔ IsNumber R value) :
      Denotes [name, key, value]
        { kind := kindSet, key := key.text, value := value.text, isNumber := isNumber }
  /-- `SET k v EX n`. -/
  | setEx {name key value ex seconds : Token} {isNumber : Bool} {n : ℕ}
      (keyword : TextLib.toUpper name.text = str "SET")
      (number : isNumber = true ↔ IsNumber R value)
      (keywordEx : TextLib.toUpper ex.text = str "EX")
      (isDecimal : Strconv.ofDecimal seconds.text = some n)
      (pos : 1 ≤ n) (le : n ≤ maxSeconds) :
      Denotes [name, key, value, ex, seconds]
        { kind := kindSet, key := key.text, value := value.text, ttl := n * 10 ^ 9,
          isNumber := isNumber }
  /-- `GET k`. -/
  | get {name key : Token} (keyword : TextLib.toUpper name.text = str "GET") :
      Denotes [name, key] { kind := kindGet, key := key.text }
  /-- `DELETE k` or `DEL k`. -/
  | delete {name key : Token}
      (keyword : TextLib.toUpper name.text = str "DELETE"
        ∨ TextLib.toUpper name.text = str "DEL") :
      Denotes [name, key] { kind := kindDelete, key := key.text }
  /-- `PING`. -/
  | ping {name : Token} (keyword : TextLib.toUpper name.text = str "PING") :
      Denotes [name] { kind := kindPing }
  /-- `GET WHERE f op x`. -/
  | getWhere {name second field operator operand : Token} {operandIsNumber : Bool}
      (keyword : TextLib.toUpper name.text = str "GET")
      (keywordWhere : TextLib.equalFold second.text (str "WHERE") = true)
      (isField : TextLib.toLower field.text ∈ [str "key", str "value"])
      (isOperator : TextLib.toLower operator.text ∈ operators)
      (number : operandIsNumber = true
        ↔ TextLib.toLower field.text = str "value" ∧ IsNumber R operand) :
      Denotes [name, second, field, operator, operand]
        { kind := kindGetWhere, field := TextLib.toLower field.text,
          operator := TextLib.toLower operator.text, operand := operand.text,
          operandIsNumber := operandIsNumber }

end Language

/-! ## Numbers and seconds -/

section Numbers

variable {R : Type} [Strconv R]

/-- **`numeric` decides whether a token is a number.** -/
theorem numeric_iff (value : Token) : numeric R value = true ↔ IsNumber R value := by
  unfold numeric IsNumber Strconv.isFiniteNumber
  cases value.quoted with
  | true => simp
  | false =>
    cases (Strconv.parseFloat value.text : Option (GoFloat R)) with
    | none => simp
    | some n => cases n <;> simp [GoFloat.isNaN, GoFloat.isInf]

/-- The digits of the cutset are those of decimal numbers. -/
theorem mem_digits_iff (b : UInt8) : b ∈ digits ↔ 48 ≤ b ∧ b ≤ 57 := by
  have hdigits : digits = [48, 49, 50, 51, 52, 53, 54, 55, 56, 57] := by decide
  rw [hdigits]
  simp only [List.mem_cons, List.not_mem_nil, or_false, ← UInt8.toNat_inj, UInt8.le_iff_toNat_le]
  constructor
  · rintro (h | h | h | h | h | h | h | h | h | h) <;> rw [h] <;> decide
  · rintro ⟨hlow, hhigh⟩
    have hlow' : 48 ≤ b.toNat := hlow
    have hhigh' : b.toNat ≤ 57 := hhigh
    show b.toNat = 48 ∨ b.toNat = 49 ∨ b.toNat = 50 ∨ b.toNat = 51 ∨ b.toNat = 52
      ∨ b.toNat = 53 ∨ b.toNat = 54 ∨ b.toNat = 55 ∨ b.toNat = 56 ∨ b.toNat = 57
    omega

/-- Trimming the digits off leaves nothing of a text of digits, and of no other text. -/
theorem trim_digits_eq_nil_iff (text : GoString) :
    trim text digits = [] ↔ text.all (fun b => decide (48 ≤ b ∧ b ≤ 57)) = true := by
  rw [trim_eq_nil_iff, List.all_eq_true]
  exact forall₂_congr (fun b _ => by rw [mem_digits_iff, decide_eq_true_iff])

end Numbers

/-- A text reads as a number exactly when it is not empty and trims to nothing. -/
theorem exists_ofDecimal_iff (text : GoString) :
    (∃ n, Strconv.ofDecimal text = some n) ↔ text ≠ [] ∧ trim text digits = [] := by
  rw [trim_digits_eq_nil_iff]
  unfold Strconv.ofDecimal
  split_ifs with h
  · exact iff_of_true ⟨_, rfl⟩ h
  · refine iff_of_false ?_ h
    rintro ⟨n, hn⟩
    cases hn

section Seconds

variable [TextLib] [TextLib.Seconds]

/-- What `time.ParseDuration` makes of a text of digits, or of no digit at all. -/
theorem parseDuration_of_trim {text : GoString} (h : trim text digits = []) :
    TextLib.parseDuration (text ++ str "s")
      = (Strconv.ofDecimal text).bind (fun n =>
          if n * 10 ^ 9 < 2 ^ 63 then some (n * 10 ^ 9 : ℤ) else none) := by
  cases hdec : Strconv.ofDecimal text with
  | some n => rw [Option.bind_some, TextLib.Seconds.parseDuration_seconds hdec]
  | none =>
    have hnil : text = [] := by
      by_contra hne
      obtain ⟨n, hn⟩ := (exists_ofDecimal_iff text).mpr ⟨hne, h⟩
      rw [hdec] at hn
      cases hn
    rw [hnil, List.nil_append]
    exact TextLib.Seconds.parseDuration_unit

/-- **The expiration of a SET**: `EX` and a text of digits that reads as a number of
seconds that is not zero and fits. -/
theorem parseExpiration_ok_iff {cmd cmd' : Command} {ex seconds : Token} :
    parseExpiration cmd ex seconds = .ok cmd'
      ↔ TextLib.toUpper ex.text = str "EX"
        ∧ ∃ n, Strconv.ofDecimal seconds.text = some n ∧ 1 ≤ n ∧ n ≤ maxSeconds
          ∧ cmd' = { cmd with ttl := n * 10 ^ 9 } := by
  unfold parseExpiration
  split_ifs with hrefused
  · refine iff_of_false (fun h => by cases h) ?_
    rintro ⟨hex, n, hn, _⟩
    have htrim := ((exists_ofDecimal_iff _).mp ⟨n, hn⟩).2
    exact hrefused.elim (fun h => h hex) (fun h => h htrim)
  · rw [not_or, not_not, not_not] at hrefused
    obtain ⟨hex, htrim⟩ := hrefused
    rw [parseDuration_of_trim htrim]
    cases hdec : Strconv.ofDecimal seconds.text with
    | none => simp
    | some n =>
      rw [Option.bind_some]
      by_cases hfits : n * 10 ^ 9 < 2 ^ 63
      · have hle : n ≤ maxSeconds := by
          unfold maxSeconds
          omega
        rw [if_pos hfits]
        show (if (n * 10 ^ 9 : ℤ) ≤ 0 then _ else _) = _ ↔ _
        split_ifs with hzero
        · refine iff_of_false (fun h => by cases h) ?_
          rintro ⟨_, m, hm, hpos, _⟩
          cases hm
          omega
        · constructor
          · intro h
            cases h
            exact ⟨hex, n, rfl, by omega, hle, rfl⟩
          · rintro ⟨_, m, hm, _, _, rfl⟩
            cases hm
            rfl
      · have hgt : ¬ n ≤ maxSeconds := by
          unfold maxSeconds
          omega
        rw [if_neg hfits]
        simp [hgt]

end Seconds

/-! ## What is accepted is in the language -/

section Parser

variable {R : Type} [Strconv R] [TextLib]

/-- A GET WHERE that is accepted is one of the language. -/
theorem denotes_of_parseGetWhere {name : Token} {rest : List Token} {cmd : Command}
    (hname : TextLib.toUpper name.text = str "GET") (hwhere : isGetWhere (name :: rest) = true)
    (h : parseGetWhere R (name :: rest) = .ok cmd) : Denotes R (name :: rest) cmd := by
  unfold parseGetWhere at h
  split at h
  · next _ second field operator operand heq =>
    rw [heq] at hwhere ⊢
    obtain ⟨rfl, rfl⟩ := List.cons.inj heq
    dsimp only at h
    split_ifs at h with hfield hoperator
    cases h
    refine .getWhere hname hwhere ?_ hoperator ?_
    · simp only [List.mem_cons, List.not_mem_nil, or_false]
      tauto
    · simp [numeric_iff]
  · cases h

/-- A SET that is accepted is one of the language. -/
theorem denotes_of_parseSet [TextLib.Seconds] {name : Token} {rest : List Token} {cmd : Command}
    (hname : TextLib.toUpper name.text = str "SET")
    (h : parseSet R (name :: rest) = .ok cmd) : Denotes R (name :: rest) cmd := by
  unfold parseSet at h
  split at h
  · next _ key value heq =>
    obtain ⟨rfl, rfl⟩ := List.cons.inj heq
    cases h
    exact .set hname (numeric_iff value)
  · next _ key value ex seconds heq =>
    obtain ⟨rfl, rfl⟩ := List.cons.inj heq
    obtain ⟨hex, n, hn, hpos, hle, rfl⟩ := parseExpiration_ok_iff.mp h
    exact .setEx hname (numeric_iff value) hex hn hpos hle
  · cases h

/-- **What is accepted is a command of the language.** -/
theorem denotes_of_parse [TextLib.Seconds] {input : GoString} {cmd : Command}
    (h : parse R input = .ok cmd) : ∃ args, split input = .ok args ∧ Denotes R args cmd := by
  unfold parse at h
  split at h
  · cases h
  · cases h
  · next name rest hsplit =>
    refine ⟨_, hsplit, ?_⟩
    dsimp only at h
    split_ifs at h with hwhere hset hkey hdel hping
    · exact denotes_of_parseGetWhere hwhere.1 hwhere.2 h
    · exact denotes_of_parseSet hset h
    · split at h
      · next _ key heq =>
        obtain ⟨rfl, rfl⟩ := List.cons.inj heq
        cases h
        exact .delete (.inr hdel)
      · cases h
    · split at h
      · next _ key heq =>
        obtain ⟨rfl, rfl⟩ := List.cons.inj heq
        cases h
        rcases hkey with hget | hdelete | hdel'
        · rw [hget]
          exact .get hget
        · rw [hdelete]
          exact .delete (.inl hdelete)
        · exact absurd hdel' hdel
      · cases h
    · split at h
      · next _ heq =>
        obtain ⟨rfl, rfl⟩ := List.cons.inj heq
        cases h
        rw [hping]
        exact .ping hping
      · cases h

/-! ## What is in the language is accepted -/

omit [TextLib] in
theorem isNumber_eq {isNumber : Bool} {value : Token} (h : isNumber = true ↔ IsNumber R value) :
    isNumber = numeric R value := Bool.eq_iff_iff.mpr (h.trans (numeric_iff value).symm)

/-- **A command of the language is accepted**, and is what its tokens denote. -/
theorem parse_of_denotes [TextLib.Seconds] {input : GoString} {args : List Token}
    {cmd : Command} (hsplit : split input = .ok args) (h : Denotes R args cmd) :
    parse R input = .ok cmd := by
  unfold parse
  rw [hsplit]
  cases h with
  | set keyword number =>
    dsimp only
    rw [keyword, if_neg (fun h => absurd h.1 (by decide)), if_pos (by decide),
      isNumber_eq number]
    rfl
  | setEx keyword number keywordEx isDecimal pos le =>
    dsimp only
    rw [keyword, if_neg (fun h => absurd h.1 (by decide)), if_pos (by decide),
      isNumber_eq number]
    exact parseExpiration_ok_iff.mpr ⟨keywordEx, _, isDecimal, pos, le, rfl⟩
  | get keyword =>
    dsimp only
    rw [keyword, if_neg (fun h => Bool.false_ne_true h.2), if_neg (by decide),
      if_pos (.inl (by decide)), if_neg (by decide)]
    rfl
  | delete keyword =>
    dsimp only
    rcases keyword with keyword | keyword
    · rw [keyword, if_neg (fun h => Bool.false_ne_true h.2), if_neg (by decide),
        if_pos (.inr (.inl (by decide))), if_neg (by decide)]
      rfl
    · rw [keyword, if_neg (fun h => Bool.false_ne_true h.2), if_neg (by decide),
        if_pos (.inr (.inr rfl)), if_pos rfl]
  | ping keyword =>
    dsimp only
    rw [keyword, if_neg (fun h => Bool.false_ne_true h.2), if_neg (by decide),
      if_neg (by decide), if_pos (by decide)]
    rfl
  | @getWhere name second field operator operand operandIsNumber keyword keywordWhere isField
      isOperator number =>
    have hnumber : operandIsNumber
        = (TextLib.toLower field.text = str "value" && numeric R operand) := by
      rw [Bool.eq_iff_iff, number]
      simp [numeric_iff]
    have hfield : ¬ (TextLib.toLower field.text ≠ str "key"
        ∧ TextLib.toLower field.text ≠ str "value") := by
      simp only [List.mem_cons, List.not_mem_nil, or_false] at isField
      tauto
    dsimp only
    rw [if_pos ⟨keyword, keywordWhere⟩, hnumber]
    unfold parseGetWhere
    exact (if_neg hfield).trans (if_neg (not_not.mpr isOperator))

/-- **`Parse` accepts exactly the command language**: it succeeds with a command when and
only when the input splits into the tokens of that command. -/
theorem parse_ok_iff [TextLib.Seconds] (input : GoString) (cmd : Command) :
    parse R input = .ok cmd ↔ ∃ args, split input = .ok args ∧ Denotes R args cmd := by
  constructor
  · exact denotes_of_parse
  · rintro ⟨args, hsplit, h⟩
    exact parse_of_denotes hsplit h

end Parser

/-- An expiration written with leading zeros, a query, and the read of the key `WHERE`. -/
theorem parse_ok_iff_forms :
    @parse ℕ _ TextLib.ascii (str "Set k '3' ex 007")
        = .ok { kind := kindSet, key := str "k", value := str "3", ttl := (7 : ℕ) * 10 ^ 9 }
    ∧ @parse ℕ _ TextLib.ascii (str "get Where VALUE >= 12")
        = .ok { kind := kindGetWhere, field := str "value", operator := str ">=",
                operand := str "12", operandIsNumber := true }
    ∧ @parse ℕ _ TextLib.ascii (str "GET WHERE")
        = .ok { kind := kindGet, key := str "WHERE" } := by
  let _ := TextLib.ascii
  refine ⟨(parse_ok_iff _ _).mpr ⟨[⟨str "Set", false⟩, ⟨str "k", false⟩, ⟨str "3", true⟩,
      ⟨str "ex", false⟩, ⟨str "007", false⟩], rfl, ?_⟩,
    (parse_ok_iff _ _).mpr ⟨[⟨str "get", false⟩, ⟨str "Where", false⟩, ⟨str "VALUE", false⟩,
      ⟨str ">=", false⟩, ⟨str "12", false⟩], rfl, ?_⟩,
    (parse_ok_iff _ _).mpr ⟨[⟨str "GET", false⟩, ⟨str "WHERE", false⟩], rfl, ?_⟩⟩
  · exact .setEx (by decide) (numeric_iff ⟨str "3", true⟩) (by decide) (by decide) (by decide)
      (by decide)
  · refine .getWhere (by decide) (by decide) (by decide) (by decide) ?_
    exact iff_of_true rfl ⟨by decide, (numeric_iff _).mp (by decide)⟩
  · exact .get (by decide)

end WasmRedis
