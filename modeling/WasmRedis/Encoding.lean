import WasmRedis.FileStorage
import WasmRedis.Foundation.JsonPrefix

/-!
# Operations and snapshots as JSON

What the storage relies on of `encoding/json` is `EncodingJSON.Lawful`: an
operation whose texts are valid UTF-8 is written on one line, and read back from
it. `EncodingJSON.Coercing` says more: any operation and any snapshot is read
back with `U+FFFD` for each byte that was not UTF-8, and what is read, from
whatever text, has none. The rest of the module is the encoding itself, as the
tags of `Op` and `Snapshot` lay it out, and the proof that it follows these laws.

A member whose name is no field's is passed over, and names are compared up to
letter case, as `encoding/json` does; a `null` leaves the field as it is, and a
later member replaces an earlier one. The texts of the errors are shortened.
-/

namespace WasmRedis

open GoString

/-- **The operations that JSON keeps whole**: the number is a `uint64`, and the
texts are valid UTF-8. -/
structure Op.Encodable (op : Op) : Prop where
  /-- The number is a `uint64`. -/
  sequence : op.sequence < 2 ^ 64
  /-- The kind is valid. -/
  kind : IsUTF8 op.kind
  /-- The key is valid. -/
  key : IsUTF8 op.key
  /-- The value is valid. -/
  value : IsUTF8 op.value

/-- **What the storage relies on of `encoding/json`**: it writes an operation on
one line, which is not empty, and reads it back from it. -/
class EncodingJSON.Lawful [EncodingJSON] : Prop where
  marshalOp_line : ∀ {op : Op}, op.Encodable → ∃ line : Line newline,
    marshalOp op = .ok line.text ∧ line.text ≠ [] ∧ unmarshalOp line.text = .ok op

namespace Op

/-- The operation as it is read back. -/
def coerced (op : Op) : Op :=
  { op with kind := GoString.coerced op.kind, key := GoString.coerced op.key,
            value := GoString.coerced op.value }

theorem Encodable.coerced_eq {op : Op} (h : op.Encodable) : op.coerced = op := by
  unfold coerced
  rw [coerced_of_isUTF8 h.kind, coerced_of_isUTF8 h.key, coerced_of_isUTF8 h.value]

end Op

/-- The entries `read` are what the entries of a snapshot are read back as: each
key and each operation coerced. Two keys may become one. -/
structure Snapshot.ReadsAs (entries read : GoMap GoString Op) : Prop where
  /-- Nothing else is read. -/
  sound : ∀ key op, read.lookup key = some op → ∃ key' op',
    entries.lookup key' = some op' ∧ key = coerced key' ∧ op = op'.coerced
  /-- No key is lost, up to what it becomes. -/
  complete : ∀ key ∈ entries, coerced key ∈ read

/-- Valid texts are read back unchanged. -/
theorem Snapshot.ReadsAs.eq {entries read : GoMap GoString Op} (h : ReadsAs entries read)
    (hvalid : ∀ key op, entries.lookup key = some op → IsUTF8 key ∧ op.Encodable) :
    read = entries := by
  have hsound : ∀ key op, read.lookup key = some op → entries.lookup key = some op := by
    intro key op hop
    obtain ⟨key', op', hop', rfl, rfl⟩ := h.sound key op hop
    obtain ⟨hkey, henc⟩ := hvalid key' op' hop'
    rwa [coerced_of_isUTF8 hkey, henc.coerced_eq]
  refine Finmap.ext_lookup (fun key => ?_)
  cases hk : entries.lookup key with
  | none =>
    cases hr : read.lookup key with
    | none => rfl
    | some op =>
      rw [hsound key op hr] at hk
      exact nomatch hk
  | some op =>
    have hmem : key ∈ read := by
      rw [← coerced_of_isUTF8 (hvalid key op hk).1]
      exact h.complete key (Finmap.mem_of_lookup_eq_some hk)
    obtain ⟨op', hr⟩ := Finmap.mem_iff.mp hmem
    rw [hr, ← hk, hsound key op' hr]

/-- **What `encoding/json` does to texts of any bytes**: what is written is read
back coerced to UTF-8, and whatever is read is UTF-8. -/
class EncodingJSON.Coercing [EncodingJSON] : Prop where
  marshalOp_coerced : ∀ {op : Op}, op.sequence < 2 ^ 64 → ∃ line : Line newline,
    marshalOp op = .ok line.text ∧ line.text ≠ [] ∧ unmarshalOp line.text = .ok op.coerced
  encodable_of_unmarshalOp : ∀ {data : GoString} {op : Op}, unmarshalOp data = .ok op →
    op.Encodable
  marshalSnapshot_coerced : ∀ {snapshot : Snapshot}, snapshot.sequence < 2 ^ 64 →
    (∀ key op, snapshot.entries.lookup key = some op → op.sequence < 2 ^ 64) →
    ∃ data read, marshalSnapshot snapshot = .ok data
      ∧ unmarshalSnapshot data = .ok (snapshot.sequence, some read)
      ∧ Snapshot.ReadsAs snapshot.entries read
  encodable_of_unmarshalSnapshot : ∀ {data : GoString} {sequence : ℕ}
    {entries : GoMap GoString Op}, unmarshalSnapshot data = .ok (sequence, some entries) →
    sequence < 2 ^ 64 ∧ ∀ key op, entries.lookup key = some op → IsUTF8 key ∧ op.Encodable

/-- **What `encoding/json` refuses**: a text that was cut short, and a text
without its first byte. -/
class EncodingJSON.Delimited [EncodingJSON] : Prop where
  unmarshalOp_prefix : ∀ {op : Op} {u v : GoString}, marshalOp op = .ok (u ++ v) → v ≠ [] →
    ∃ err, unmarshalOp u = .error err
  unmarshalOp_tail : ∀ {op : Op} {b : UInt8} {v : GoString}, marshalOp op = .ok (b :: v) →
    v ≠ [] ∧ ∃ err, unmarshalOp v = .error err

instance EncodingJSON.Coercing.lawful [EncodingJSON] [EncodingJSON.Coercing] :
    EncodingJSON.Lawful where
  marshalOp_line := by
    intro op h
    have hline := Coercing.marshalOp_coerced h.sequence
    rwa [h.coerced_eq] at hline

/-! ## Fields -/

namespace Field

/-- The text of an integer. -/
def ofInt (n : ℤ) : GoString :=
  if n < 0 then 45 :: Strconv.decimal n.natAbs else Strconv.decimal n.natAbs

/-- The integer a text reads as. -/
def toInt : GoString → Option ℤ
  | [] => none
  | b :: s =>
    if b = 45 then (Strconv.ofDecimal s).map (fun n : ℕ => -(n : ℤ))
    else (Strconv.ofDecimal (b :: s)).map Nat.cast

/-- Decodes a field of type `uint64`. -/
def uint64 (old : ℕ) : Json → Option ℕ
  | .null => some old
  | .number text => (Strconv.ofDecimal text).filter (fun n => n < 2 ^ 64)
  | _ => none

/-- Decodes a field of type `int64`. -/
def int64 (old : Int64) : Json → Option Int64
  | .null => some old
  | .number text =>
    ((toInt text).filter (fun n => -2 ^ 63 ≤ n ∧ n < 2 ^ 63)).map Int64.ofInt
  | _ => none

/-- Decodes a field of type `string`. -/
def string (old : GoString) : Json → Option GoString
  | .null => some old
  | .string text => some text
  | _ => none

/-- Decodes a field of type `bool`. -/
def bool (old : Bool) : Json → Option Bool
  | .null => some old
  | .bool b => some b
  | _ => none

/-- A rune without its case, among those that have an ASCII letter as a case. -/
def foldRune (c : Char) : Char :=
  if c = '\u017F' then 'S' else if c = '\u212A' then 'K' else c.toUpper

/-- The name is that of the field, up to letter case. -/
def named (name field : GoString) : Bool := (runes name).map foldRune = (runes field).map foldRune

/-- Sets the field that a member names, the fields being given with how each is
set. -/
def set {S : Type} (fields : List (GoString × (S → Json → Option S))) (old : S)
    (member : GoString × Json) : Option S :=
  match fields.find? (fun field => named member.1 field.1) with
  | none => some old
  | some field => field.2 old member.2

/-- Decodes an object into a value with these fields. -/
def decode {S : Type} (fields : List (GoString × (S → Json → Option S))) (old : S) :
    Json → Option S
  | .null => some old
  | .object members => members.foldlM (set fields) old
  | _ => none

/-- What decoding any member keeps, decoding keeps; the strings are UTF-8. -/
theorem decode_induction {S : Type} {fields : List (GoString × (S → Json → Option S))}
    {P : S → Prop} (hset : ∀ field ∈ fields, ∀ old v s, P old → v.coerced = v →
      field.2 old v = some s → P s) {old s : S} {v : Json} (hold : P old) (hv : v.coerced = v)
    (h : decode fields old v = some s) : P s := by
  cases v with
  | null => exact Option.some.inj h ▸ hold
  | object members =>
    have hmembers : ∀ m ∈ members, m.2.coerced = m.2 := fun m hm => (Json.coerced_of_mem hv hm).2
    have hfold : members.foldlM (set fields) old = some s := h
    clear h hv
    induction members generalizing old with
    | nil => exact Option.some.inj hfold ▸ hold
    | cons m members ih =>
      obtain ⟨s₁, hm, hrest⟩ := Option.bind_eq_some_iff.mp ((List.foldlM_cons).symm.trans hfold)
      refine ih ?_ (fun u hu => hmembers u (List.mem_cons_of_mem _ hu)) hrest
      unfold set at hm
      cases hfind : fields.find? (fun field => named m.1 field.1) with
      | none =>
        rw [hfind] at hm
        exact Option.some.inj hm ▸ hold
      | some field =>
        rw [hfind] at hm
        exact hset field (List.mem_of_find?_eq_some hfind) old m.2 s₁ hold
          (hmembers m List.mem_cons_self) hm
  | _ => exact nomatch h

theorem uint64_lt {old n : ℕ} {v : Json} (hold : old < 2 ^ 64) (h : uint64 old v = some n) :
    n < 2 ^ 64 := by
  cases v with
  | null => exact Option.some.inj h ▸ hold
  | number text => exact of_decide_eq_true (Option.filter_eq_some_iff.mp h).2
  | _ => exact nomatch h

theorem isUTF8_string {old text : GoString} {v : Json} (hold : IsUTF8 old) (hv : v.coerced = v)
    (h : string old v = some text) : IsUTF8 text := by
  cases v with
  | null => exact Option.some.inj h ▸ hold
  | string text' =>
    obtain rfl := Option.some.inj h
    exact (isUTF8_iff _).mpr (Json.string.inj hv)
  | _ => exact nomatch h

/-- The text of a natural number starts with no sign. -/
theorem exists_cons_decimal (n : ℕ) : ∃ b s, Strconv.decimal n = b :: s ∧ b ≠ 45 := by
  obtain ⟨b, s, hbs⟩ := List.exists_cons_of_ne_nil (Strconv.decimal_ne_nil n)
  have hdigit := Strconv.isDigit_of_mem_decimal (n := n) (b := b)
    (by rw [hbs]; exact List.mem_cons_self)
  refine ⟨b, s, hbs, ?_⟩
  rintro rfl
  exact absurd hdigit.1 (by decide)

theorem toInt_ofInt (n : ℤ) : toInt (ofInt n) = some n := by
  unfold ofInt
  split_ifs with hn
  · rw [toInt, if_pos rfl, Strconv.ofDecimal_decimal, Option.map_some]
    exact congrArg some (by omega)
  · obtain ⟨b, s, hbs, hsign⟩ := exists_cons_decimal n.natAbs
    rw [hbs, toInt, if_neg hsign, ← hbs, Strconv.ofDecimal_decimal, Option.map_some]
    exact congrArg some (by omega)

theorem integerPart_decimal (n : ℕ) : Json.integerPart (Strconv.decimal n) = some [] := by
  have hall : ∀ b ∈ Strconv.decimal n, Json.isDigit b = true :=
    fun b hb => decide_eq_true (Strconv.isDigit_of_mem_decimal hb)
  cases hd : Strconv.decimal n with
  | nil => exact absurd hd (Strconv.decimal_ne_nil n)
  | cons b s =>
    rw [hd] at hall
    rw [Json.integerPart]
    split_ifs with hb
    · -- only `0` starts with the digit `0`
      have hn : n = 0 := by
        by_contra hn
        exact Strconv.head?_decimal_ne (Nat.pos_of_ne_zero hn) (by rw [hd, hb]; rfl)
      rw [hn] at hd
      exact congrArg some (List.cons.inj (hd.symm.trans (show Strconv.decimal 0 = [48] from rfl))).2
    · rw [Json.digits, if_pos (hall b List.mem_cons_self)]
      exact congrArg some (List.dropWhile_eq_nil_iff.mpr
        (fun c hc => hall c (List.mem_cons_of_mem _ hc)))

/-- The text of an integer is a number of JSON. -/
theorem isNumber_ofInt (n : ℤ) : Json.isNumber (ofInt n) = true := by
  have hpart := integerPart_decimal n.natAbs
  have hunsigned : Json.unsigned [45] (ofInt n) = Strconv.decimal n.natAbs := by
    unfold ofInt
    split_ifs with hn
    · rfl
    · obtain ⟨b, s, hbs, hsign⟩ := exists_cons_decimal n.natAbs
      have hnone : [45].contains b = false := by
        rw [List.contains_cons, beq_eq_false_iff_ne.mpr hsign]
        rfl
      rw [hbs, Json.unsigned, hnone]
      rfl
  unfold Json.isNumber
  rw [hunsigned, hpart]
  rfl

end Field

/-! ## Operations -/

namespace Op

/-- The value of the type `Op` that decoding starts from. -/
def zero : Op :=
  { sequence := 0, kind := [], key := [], value := [], isNumber := false, expiresAt := 0 }

/-- The JSON of an operation. -/
def toJson (op : Op) : Json :=
  .object [
    (str "sequence", .number (Field.ofInt op.sequence)),
    (str "kind", .string op.kind),
    (str "key", .string op.key),
    (str "value", .string op.value),
    (str "isNumber", .bool op.isNumber),
    (str "expiresAt", .number (Field.ofInt op.expiresAt.toInt))]

/-- The fields of an operation. -/
def fields : List (GoString × (Op → Json → Option Op)) := [
  (str "sequence", fun op v => (Field.uint64 op.sequence v).map ({ op with sequence := · })),
  (str "kind", fun op v => (Field.string op.kind v).map ({ op with kind := · })),
  (str "key", fun op v => (Field.string op.key v).map ({ op with key := · })),
  (str "value", fun op v => (Field.string op.value v).map ({ op with value := · })),
  (str "isNumber", fun op v => (Field.bool op.isNumber v).map ({ op with isNumber := · })),
  (str "expiresAt", fun op v => (Field.int64 op.expiresAt v).map ({ op with expiresAt := · }))]

/-- Decodes an operation. -/
def ofJson (v : Json) : Option Op := Field.decode fields zero v

/-- The members of the JSON of an operation are scalars. -/
theorem exists_members (op : Op) : ∃ members, op.toJson = .object members ∧ members ≠ []
    ∧ ∀ m ∈ members, m.2.Scalar := by
  refine ⟨_, rfl, List.cons_ne_nil _ _, fun m hm => ?_⟩
  simp only [List.mem_cons, List.not_mem_nil, or_false] at hm
  rcases hm with rfl | rfl | rfl | rfl | rfl | rfl
  · exact .number (Field.isNumber_ofInt _)
  · exact .string _
  · exact .string _
  · exact .string _
  · exact .bool _
  · exact .number (Field.isNumber_ofInt _)

theorem toJson_wellFormed (op : Op) : op.toJson.WellFormed := by
  obtain ⟨members, htext, _, hscalar⟩ := op.exists_members
  exact htext ▸ .object (fun m hm => (hscalar m hm).wellFormed)

theorem coerced_toJson (op : Op) : op.toJson.coerced = op.coerced.toJson := by
  have hname : ∀ s : String, GoString.coerced (str s) = str s :=
    fun s => coerced_of_isUTF8 (isUTF8_str s)
  unfold toJson
  simp only [Json.coerced, Json.coercedMembers, hname]
  rfl

theorem uint64_ofInt {n : ℕ} (h : n < 2 ^ 64) (old : ℕ) :
    Field.uint64 old (.number (Field.ofInt n)) = some n := by
  have htext : Field.ofInt n = Strconv.decimal n := by
    unfold Field.ofInt
    rw [if_neg (not_lt.mpr (Int.natCast_nonneg n)), Int.natAbs_natCast]
  unfold Field.uint64
  dsimp only
  rw [htext, Strconv.ofDecimal_decimal, Option.filter_some, if_pos (decide_eq_true h)]

theorem int64_ofInt (n old : Int64) : Field.int64 old (.number (Field.ofInt n.toInt)) = some n := by
  unfold Field.int64
  dsimp only
  rw [Field.toInt_ofInt, Option.filter_some,
    if_pos (decide_eq_true ⟨Int64.le_toInt n, Int64.toInt_lt n⟩), Option.map_some,
    Int64.ofInt_toInt]

/-- **An operation is read back from its JSON.** -/
theorem ofJson_toJson {op : Op} (h : op.sequence < 2 ^ 64) : ofJson op.toJson = some op := by
  have hsequence : ∀ old, Field.set fields old (str "sequence", .number (Field.ofInt op.sequence))
      = some { old with sequence := op.sequence } := fun old =>
    congrArg (Option.map _) (uint64_ofInt h old.sequence)
  have hkind : ∀ old, Field.set fields old (str "kind", .string op.kind)
      = some { old with kind := op.kind } := fun _ => rfl
  have hkey : ∀ old, Field.set fields old (str "key", .string op.key)
      = some { old with key := op.key } := fun _ => rfl
  have hvalue : ∀ old, Field.set fields old (str "value", .string op.value)
      = some { old with value := op.value } := fun _ => rfl
  have hisNumber : ∀ old, Field.set fields old (str "isNumber", .bool op.isNumber)
      = some { old with isNumber := op.isNumber } := fun _ => rfl
  have hexpiresAt : ∀ old,
      Field.set fields old (str "expiresAt", .number (Field.ofInt op.expiresAt.toInt))
        = some { old with expiresAt := op.expiresAt } := fun old =>
    congrArg (Option.map _) (int64_ofInt op.expiresAt old.expiresAt)
  unfold ofJson toJson Field.decode
  simp only [List.foldlM_cons, List.foldlM_nil, hsequence, hkind, hkey, hvalue, hisNumber,
    hexpiresAt, Option.bind_eq_bind, Option.bind_some, Option.pure_def]

/-- **Whatever is decoded can be encoded**: its number is a `uint64`, and its
texts are UTF-8. -/
theorem encodable_of_ofJson {v : Json} {op : Op} (hv : v.coerced = v) (h : ofJson v = some op) :
    op.Encodable := by
  have hnil : IsUTF8 [] := ⟨[], rfl⟩
  refine Field.decode_induction (P := Op.Encodable) (fun field hfield old v op hold hv hop => ?_)
    ⟨Nat.two_pow_pos 64, hnil, hnil, hnil⟩ hv h
  simp only [fields, List.mem_cons, List.not_mem_nil, or_false] at hfield
  rcases hfield with rfl | rfl | rfl | rfl | rfl | rfl
  · obtain ⟨n, hn, rfl⟩ := Option.map_eq_some_iff.mp hop
    exact { hold with sequence := Field.uint64_lt hold.sequence hn }
  · obtain ⟨text, ht, rfl⟩ := Option.map_eq_some_iff.mp hop
    exact { hold with kind := Field.isUTF8_string hold.kind hv ht }
  · obtain ⟨text, ht, rfl⟩ := Option.map_eq_some_iff.mp hop
    exact { hold with key := Field.isUTF8_string hold.key hv ht }
  · obtain ⟨text, ht, rfl⟩ := Option.map_eq_some_iff.mp hop
    exact { hold with value := Field.isUTF8_string hold.value hv ht }
  · obtain ⟨b, _, rfl⟩ := Option.map_eq_some_iff.mp hop
    exact ⟨hold.sequence, hold.kind, hold.key, hold.value⟩
  · obtain ⟨n, _, rfl⟩ := Option.map_eq_some_iff.mp hop
    exact ⟨hold.sequence, hold.kind, hold.key, hold.value⟩

end Op

/-! ## Snapshots -/

namespace Snapshot

/-- The JSON of a snapshot, whose entries are in the order of their keys. -/
def toJson (snapshot : Snapshot) : Json :=
  .object [
    (str "sequence", .number (Field.ofInt snapshot.sequence)),
    (str "entries", .object ((RangeOrder.sorted.list snapshot.entries.keys).filterMap (fun key =>
      (snapshot.entries.lookup key).map (fun op => (key, op.toJson)))))]

/-- Decodes the entries into a map: those of a second object are added. -/
def decodeEntries (old : Option (GoMap GoString Op)) : Json → Option (Option (GoMap GoString Op))
  | .null => some none
  | .object members =>
    (members.foldlM (fun (entries : GoMap GoString Op) member =>
      (Op.ofJson member.2).map (fun op => entries.insert member.1 op)) (old.getD ∅)).map some
  | _ => none

/-- The fields of a snapshot. -/
def fields : List (GoString × (ℕ × Option (GoMap GoString Op) → Json →
    Option (ℕ × Option (GoMap GoString Op)))) := [
  (str "sequence", fun s v => (Field.uint64 s.1 v).map ((·, s.2))),
  (str "entries", fun s v => (decodeEntries s.2 v).map ((s.1, ·)))]

/-- Decodes a snapshot. -/
def ofJson (v : Json) : Option (ℕ × Option (GoMap GoString Op)) :=
  Field.decode fields (0, none) v

/-- The entries of a snapshot, in the order of their keys. -/
def pairs (entries : GoMap GoString Op) : List (GoString × Op) :=
  (RangeOrder.sorted.list entries.keys).filterMap (fun key =>
    (entries.lookup key).map (fun op => (key, op)))

theorem mem_pairs {entries : GoMap GoString Op} {key : GoString} {op : Op} :
    (key, op) ∈ pairs entries ↔ entries.lookup key = some op := by
  unfold pairs
  rw [List.mem_filterMap]
  constructor
  · rintro ⟨key', _, h⟩
    obtain ⟨op', hop', heq⟩ := Option.map_eq_some_iff.mp h
    obtain ⟨rfl, rfl⟩ := Prod.mk.inj heq
    exact hop'
  · intro h
    exact ⟨key, (GoMap.mem_order _ _ _).mpr ⟨op, h⟩, by rw [h]; rfl⟩

theorem toJson_eq (snapshot : Snapshot) :
    snapshot.toJson = .object [
      (str "sequence", .number (Field.ofInt snapshot.sequence)),
      (str "entries", .object ((pairs snapshot.entries).map (fun p => (p.1, p.2.toJson))))] := by
  unfold toJson pairs
  rw [List.map_filterMap]
  simp only [Option.map_map]
  rfl

theorem toJson_wellFormed (snapshot : Snapshot) : snapshot.toJson.WellFormed := by
  rw [toJson_eq]
  refine .object (fun m hm => ?_)
  simp only [List.mem_cons, List.not_mem_nil, or_false] at hm
  rcases hm with rfl | rfl
  · exact .number (Field.isNumber_ofInt _)
  · refine .object (fun m hm => ?_)
    obtain ⟨p, _, rfl⟩ := List.mem_map.mp hm
    exact p.2.toJson_wellFormed

/-- The map that decoding makes of the members it meets. -/
def ofPairs (pairs : List (GoString × Op)) : GoMap GoString Op :=
  pairs.foldl (fun entries p => entries.insert p.1 p.2) ∅

theorem ofPairs_concat (l : List (GoString × Op)) (p : GoString × Op) :
    ofPairs (l ++ [p]) = (ofPairs l).insert p.1 p.2 := by
  unfold ofPairs
  rw [List.foldl_append]
  rfl

theorem mem_of_lookup_ofPairs {l : List (GoString × Op)} {key : GoString} {op : Op}
    (h : (ofPairs l).lookup key = some op) : (key, op) ∈ l := by
  induction l using List.reverseRecOn with
  | nil => exact nomatch h
  | append_singleton l p ih =>
    rw [ofPairs_concat] at h
    rw [List.mem_append, List.mem_singleton]
    by_cases hk : key = p.1
    · rw [hk, Finmap.lookup_insert] at h
      exact .inr (Prod.ext hk (Option.some.inj h).symm)
    · rw [Finmap.lookup_insert_of_ne _ hk] at h
      exact .inl (ih h)

theorem mem_ofPairs {l : List (GoString × Op)} {p : GoString × Op} (h : p ∈ l) :
    p.1 ∈ ofPairs l := by
  induction l using List.reverseRecOn with
  | nil => exact absurd h List.not_mem_nil
  | append_singleton l q ih =>
    rw [ofPairs_concat, Finmap.mem_insert]
    obtain h | h := List.mem_append.mp h
    · exact .inr (ih h)
    · exact .inl (congrArg Prod.fst (List.mem_singleton.mp h))

/-- The entries are decoded one by one. -/
theorem decodeEntries_map {l : List (GoString × Op)} (h : ∀ p ∈ l, p.2.sequence < 2 ^ 64) :
    decodeEntries none (.object (l.map (fun p => (p.1, p.2.toJson))))
      = some (some (ofPairs l)) := by
  have hfold : ∀ (l : List (GoString × Op)) (entries : GoMap GoString Op),
      (∀ p ∈ l, p.2.sequence < 2 ^ 64) →
      (l.map (fun p => (p.1, p.2.toJson))).foldlM (fun (entries : GoMap GoString Op) member =>
          (Op.ofJson member.2).map (fun op => entries.insert member.1 op)) entries
        = some (l.foldl (fun entries p => entries.insert p.1 p.2) entries) := by
    intro l
    induction l with
    | nil => exact fun _ _ => rfl
    | cons p l ih =>
      intro entries h
      rw [List.map_cons, List.foldlM_cons, Op.ofJson_toJson (h p List.mem_cons_self)]
      exact ih _ (fun q hq => h q (List.mem_cons_of_mem _ hq))
  show Option.map some _ = _
  rw [hfold l _ h]
  rfl

/-- **A snapshot is read back coerced.** -/
theorem ofJson_toJson {snapshot : Snapshot} (hseq : snapshot.sequence < 2 ^ 64)
    (hops : ∀ key op, snapshot.entries.lookup key = some op → op.sequence < 2 ^ 64) :
    ∃ read, ofJson snapshot.toJson.coerced = some (snapshot.sequence, some read)
      ∧ ReadsAs snapshot.entries read := by
  let l := (pairs snapshot.entries).map (fun p => (coerced p.1, p.2.coerced))
  have hmem : ∀ {p : GoString × Op}, p ∈ l ↔ ∃ key op, snapshot.entries.lookup key = some op
      ∧ coerced key = p.1 ∧ op.coerced = p.2 := by
    intro p
    rw [List.mem_map]
    constructor
    · rintro ⟨q, hq, rfl⟩
      exact ⟨q.1, q.2, mem_pairs.mp hq, rfl, rfl⟩
    · rintro ⟨key, op, hop, hkey, hp⟩
      exact ⟨(key, op), mem_pairs.mpr hop, Prod.ext hkey hp⟩
  have hjson : snapshot.toJson.coerced = .object [
      (str "sequence", .number (Field.ofInt snapshot.sequence)),
      (str "entries", .object (l.map (fun p => (p.1, p.2.toJson))))] := by
    have hname : ∀ s : String, coerced (str s) = str s :=
      fun s => coerced_of_isUTF8 (isUTF8_str s)
    rw [toJson_eq]
    simp only [Json.coerced, Json.coercedMembers_eq_map, List.map_cons, List.map_nil, hname,
      List.map_map, l]
    simp only [Function.comp_def, Op.coerced_toJson]
  refine ⟨ofPairs l, ?_, fun key op hop => ?_, fun key hkey => ?_⟩
  · have hsequence : ∀ old, Field.set fields old
        (str "sequence", .number (Field.ofInt snapshot.sequence))
          = some (snapshot.sequence, old.2) := fun old =>
      congrArg (Option.map _) (Op.uint64_ofInt hseq old.1)
    have hentries : ∀ n, Field.set fields (n, none)
        (str "entries", .object (l.map (fun p => (p.1, p.2.toJson))))
          = some (n, some (ofPairs l)) := fun n => by
      refine congrArg (Option.map _) (decodeEntries_map (fun p hp => ?_))
      obtain ⟨key, op, hop, _, hp⟩ := hmem.mp hp
      rw [← hp]
      exact hops key op hop
    rw [hjson]
    unfold ofJson Field.decode
    simp only [List.foldlM_cons, List.foldlM_nil, hsequence, hentries, Option.bind_eq_bind,
      Option.bind_some, Option.pure_def]
  · obtain ⟨key', op', hop', hkey, hread⟩ := hmem.mp (mem_of_lookup_ofPairs hop)
    exact ⟨key', op', hop', hkey.symm, hread.symm⟩
  · obtain ⟨op, hop⟩ := Finmap.mem_iff.mp hkey
    exact mem_ofPairs (p := (coerced key, op.coerced)) (hmem.mpr ⟨key, op, hop, rfl, rfl⟩)

/-- The number and the entries read can be encoded. -/
def Encodable (s : ℕ × Option (GoMap GoString Op)) : Prop :=
  s.1 < 2 ^ 64 ∧ ∀ entries, s.2 = some entries →
    ∀ key op, entries.lookup key = some op → IsUTF8 key ∧ op.Encodable

theorem encodable_decodeEntries {old read : Option (GoMap GoString Op)} {v : Json}
    (hv : v.coerced = v) (hold : ∀ entries, old = some entries →
      ∀ key op, entries.lookup key = some op → IsUTF8 key ∧ op.Encodable)
    (h : decodeEntries old v = some read) : ∀ entries, read = some entries →
      ∀ key op, entries.lookup key = some op → IsUTF8 key ∧ op.Encodable := by
  cases v with
  | null =>
    intro entries hread
    rw [← Option.some.inj h] at hread
    exact nomatch hread
  | object members =>
    have hmembers : ∀ m ∈ members, IsUTF8 m.1 ∧ m.2.coerced = m.2 := fun m hm =>
      (Json.coerced_of_mem hv hm).imp_left (isUTF8_iff _).mpr
    obtain ⟨entries, hfold, rfl⟩ := Option.map_eq_some_iff.mp h
    rintro _ ⟨⟩
    have hstart : ∀ key op, (old.getD ∅).lookup key = some op → IsUTF8 key ∧ op.Encodable := by
      cases old with
      | none => exact fun key op hop => nomatch (Finmap.lookup_empty key).symm.trans hop
      | some entries => exact hold entries rfl
    generalize old.getD ∅ = start at hfold hstart
    clear h hv hold
    induction members generalizing start with
    | nil => exact Option.some.inj hfold ▸ hstart
    | cons m members ih =>
      obtain ⟨next, hm, hrest⟩ := Option.bind_eq_some_iff.mp ((List.foldlM_cons).symm.trans hfold)
      obtain ⟨hkey, hvalue⟩ := hmembers m List.mem_cons_self
      refine ih (fun u hu => hmembers u (List.mem_cons_of_mem _ hu)) next hrest
        (fun key op hop => ?_)
      obtain ⟨op', hop', rfl⟩ := Option.map_eq_some_iff.mp hm
      by_cases hk : key = m.1
      · rw [hk, Finmap.lookup_insert] at hop
        exact ⟨hk ▸ hkey, Option.some.inj hop ▸ Op.encodable_of_ofJson hvalue hop'⟩
      · rw [Finmap.lookup_insert_of_ne _ hk] at hop
        exact hstart key op hop
  | _ => exact nomatch h

theorem encodable_of_ofJson {v : Json} {s : ℕ × Option (GoMap GoString Op)}
    (hv : v.coerced = v) (h : ofJson v = some s) : Encodable s := by
  refine Field.decode_induction (P := Encodable) (fun field hfield old v s hold hv hs => ?_)
    ⟨Nat.two_pow_pos 64, fun _ hnone => nomatch (show none = some _ from hnone)⟩ hv h
  simp only [fields, List.mem_cons, List.not_mem_nil, or_false] at hfield
  rcases hfield with rfl | rfl
  · obtain ⟨n, hn, rfl⟩ := Option.map_eq_some_iff.mp hs
    exact ⟨Field.uint64_lt hold.1 hn, hold.2⟩
  · obtain ⟨read, hread, rfl⟩ := Option.map_eq_some_iff.mp hs
    exact ⟨hold.1, encodable_decodeEntries hv hold.2 hread⟩

end Snapshot

/-! ## The encoding -/

/-- `json.Unmarshal` into a value of the type that `decode` decodes. -/
def unmarshal {S : Type} (decode : Json → Option S) (data : GoString) : Except Err S :=
  match Json.parse data with
  | none => .error (.new (str "invalid JSON"))
  | some v =>
    match decode v with
    | none => .error (.new (str "json: cannot unmarshal"))
    | some s => .ok s

/-- `encoding/json`. -/
instance goJSON : EncodingJSON where
  marshalOp op := .ok op.toJson.render
  unmarshalOp := unmarshal Op.ofJson
  marshalSnapshot snapshot := .ok snapshot.toJson.render
  unmarshalSnapshot := unmarshal Snapshot.ofJson

theorem unmarshal_render {S : Type} (decode : Json → Option S) {v : Json} {s : S}
    (hv : v.WellFormed) (h : decode v.coerced = some s) : unmarshal decode v.render = .ok s := by
  unfold unmarshal
  rw [Json.parse_render hv]
  dsimp only
  rw [h]

theorem exists_of_unmarshal {S : Type} {decode : Json → Option S} {data : GoString} {s : S}
    (h : unmarshal decode data = .ok s) : ∃ v : Json, v.coerced = v ∧ decode v = some s := by
  unfold unmarshal at h
  cases hv : Json.parse data with
  | none =>
    rw [hv] at h
    exact nomatch h
  | some v =>
    rw [hv] at h
    dsimp only at h
    cases hs : decode v with
    | none =>
      rw [hs] at h
      exact nomatch h
    | some s' =>
      rw [hs] at h
      exact ⟨v, Json.coerced_of_parse hv, hs.trans (congrArg some (Except.ok.inj h))⟩

/-- **The encoding follows the laws.** -/
instance : EncodingJSON.Coercing where
  marshalOp_coerced := by
    intro op h
    have hv := op.toJson_wellFormed
    have hline : newline ∉ op.toJson.render := fun hb => absurd (hv.printable _ hb) (by decide)
    refine ⟨⟨op.toJson.render, hline⟩, rfl, List.cons_ne_nil _ _, unmarshal_render _ hv ?_⟩
    rw [Op.coerced_toJson]
    exact Op.ofJson_toJson h
  encodable_of_unmarshalOp := by
    intro data op h
    obtain ⟨v, hv, hop⟩ := exists_of_unmarshal h
    exact Op.encodable_of_ofJson hv hop
  marshalSnapshot_coerced := by
    intro snapshot hseq hops
    obtain ⟨read, hread, hreads⟩ := Snapshot.ofJson_toJson hseq hops
    exact ⟨_, read, rfl, unmarshal_render _ snapshot.toJson_wellFormed hread, hreads⟩
  encodable_of_unmarshalSnapshot := by
    intro data sequence entries h
    obtain ⟨v, hv, hs⟩ := exists_of_unmarshal h
    obtain ⟨hseq, hentries⟩ := Snapshot.encodable_of_ofJson hv hs
    exact ⟨hseq, hentries entries rfl⟩

theorem unmarshal_of_parse {S : Type} (decode : Json → Option S) {data : GoString}
    (h : Json.parse data = none) : ∃ err, unmarshal decode data = .error err := by
  unfold unmarshal
  rw [h]
  exact ⟨_, rfl⟩

/-- **The encoding refuses texts that are cut.** -/
instance : EncodingJSON.Delimited where
  unmarshalOp_prefix := by
    intro op u v h hv
    obtain ⟨members, htext, _, hscalar⟩ := op.exists_members
    have hrender : Json.render (.object members) = u ++ v := htext ▸ Except.ok.inj h
    exact unmarshal_of_parse _ (Json.parse_of_cut hscalar hrender hv)
  unmarshalOp_tail := by
    intro op b v h
    obtain ⟨members, htext, hne, _⟩ := op.exists_members
    have hrender : Json.render (.object members) = b :: v := htext ▸ Except.ok.inj h
    obtain ⟨rfl, hv⟩ := List.cons.inj hrender
    refine ⟨?_, unmarshal_of_parse _ (Json.parse_of_tail hne hrender)⟩
    rw [← hv]
    exact List.append_ne_nil_of_right_ne_nil _ (List.cons_ne_nil _ _)

/-- Names are compared up to letter case, members of no field are passed over, and
`\u0041` is the letter `A`. -/
example : EncodingJSON.unmarshalOp
    (str " \x7b\"KIND\":\"SET\", \"x\":[1,null], \"key\":\"\\u0041\"\x7d")
      = .ok { Op.zero with kind := str "SET", key := str "A" } := by decide

end WasmRedis
