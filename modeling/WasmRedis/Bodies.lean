import WasmRedis.Encoding

/-!
# The bodies of requests

A body is read to its end, or refused: it has at most 16384 bytes, and is the
text of one JSON value, with nothing but space around it. The value is an object
that has no member but the field expected, or `null`, which leaves the field at
its zero value; the last member that has a string counts.

`text_eq_some_iff` says exactly which values give a field of type `string`, and
which text they give. A field of type `[]string` is decoded in place: the array
of an earlier member is used again, and a `null` in it keeps what the array has
there, even past the end of the slice.
-/

namespace WasmRedis

open GoString

namespace Api

/-- The body of a request, as the connection gives it. -/
structure Incoming where
  /-- The bytes. -/
  bytes : GoString
  /-- Whether reading fails after these bytes, instead of coming to the end. -/
  fails : Bool
  deriving DecidableEq

/-- The bytes a body may have. -/
def maxBody : ℕ := 16 * 1024

section Decoding

variable {S : Type} (fields : List (GoString × (S → Json → Option S)))

/-- Sets the field that a member names; a member that names none is an error. -/
def setKnown (old : S) (member : GoString × Json) : Option S :=
  match fields.find? (fun field => Field.named member.1 field.1) with
  | none => none
  | some field => field.2 old member.2

/-- Decodes an object into a value that has these fields and no other. -/
def decodeKnown (old : S) : Json → Option S
  | .null => some old
  | .object members => members.foldlM (setKnown fields) old
  | _ => none

/-- `read(w, r, target)`, for a target with these fields; `none` is an error. -/
def read (zero : S) (body : Incoming) : Option S :=
  if body.fails ∨ maxBody < body.bytes.length then none
  else (Json.parse body.bytes).bind (decodeKnown fields zero)

end Decoding

/-- A body that has one field of type `string`. -/
def text (field : String) (body : Incoming) : Option GoString :=
  read [(str field, Field.string)] [] body

/-- A slice of strings: the strings its array was ever given, and its length. -/
structure Strings where
  /-- The array; what is not listed is empty. -/
  array : List GoString
  /-- The length of the slice. -/
  length : ℕ
  deriving DecidableEq

/-- The strings of a slice. -/
def Strings.toList (s : Strings) : List GoString := s.array.take s.length

/-- Decodes items into an array, in place. -/
def decodeItems : List GoString → List Json → Option (List GoString)
  | array, [] => some array
  | array, v :: items =>
    (Field.string (array.headD []) v).bind fun item =>
      (decodeItems array.tail items).map (item :: ·)

/-- Decodes a field of type `[]string`; `none` is the nil slice. -/
def strings (old : Option Strings) : Json → Option (Option Strings)
  | .null => some none
  | .array items =>
    if items = [] then some (some ⟨[], 0⟩)
    else
      (decodeItems (old.elim [] Strings.array) items).map
        (fun array => some ⟨array, items.length⟩)
  | _ => none

/-- The body of a batch; `none` inside is the nil slice. -/
def batch (body : Incoming) : Option (Option (List GoString)) :=
  (read [(str "commands", strings)] none body).map (Option.map Strings.toList)

/-! ## What is read -/

section Text

variable {field : String} {body : Incoming} {value : GoString}

/-- What a member gives a field of type `string`. -/
def textOf (member : GoString × Json) : Option GoString :=
  match member.2 with
  | .string text => some text
  | _ => none

/-- A member that a field of type `string` accepts. -/
def Accepted (field : String) (member : GoString × Json) : Prop :=
  Field.named member.1 (str field) = true ∧ (member.2 = .null ∨ ∃ text, member.2 = .string text)

theorem setKnown_text (old : GoString) (member : GoString × Json) :
    setKnown [(str field, Field.string)] old member = some value
      ↔ Accepted field member ∧ value = (textOf member).getD old := by
  obtain ⟨name, v⟩ := member
  unfold setKnown Accepted textOf
  dsimp only
  cases hname : Field.named name (str field) with
  | false =>
    rw [List.find?_cons_of_neg (by rw [hname]; exact Bool.false_ne_true), List.find?_nil]
    simp
  | true =>
    have hfind : [(str field, Field.string)].find? (fun f => Field.named name f.1)
        = some (str field, Field.string) := List.find?_cons_of_pos hname
    rw [hfind]
    dsimp only
    cases v with
    | null => simp [Field.string, eq_comm]
    | string text => simp [Field.string, eq_comm]
    | bool b => simp [Field.string]
    | number text => simp [Field.string]
    | array items => simp [Field.string]
    | object members => simp [Field.string]

/-- The members of an object, one after the other: all are accepted, and the last
that has a string counts. -/
theorem foldlM_text (members : List (GoString × Json)) (old : GoString) :
    members.foldlM (setKnown [(str field, Field.string)]) old = some value
      ↔ (∀ member ∈ members, Accepted field member)
        ∧ value = ((members.filterMap textOf).getLast?).getD old := by
  induction members generalizing old with
  | nil =>
    show some old = some value ↔ _
    simp [eq_comm]
  | cons member members ih =>
    rw [List.foldlM_cons]
    show (setKnown _ old member).bind _ = _ ↔ _
    have hlast : ((member :: members).filterMap textOf).getLast?.getD old
        = ((members.filterMap textOf).getLast?).getD ((textOf member).getD old) := by
      cases htext : textOf member with
      | none => rw [List.filterMap_cons_none htext, Option.getD_none]
      | some text =>
        rw [List.filterMap_cons_some htext, List.getLast?_cons]
        cases (members.filterMap textOf).getLast? <;> rfl
    rw [Option.bind_eq_some_iff, hlast, List.forall_mem_cons]
    constructor
    · rintro ⟨next, hset, hrest⟩
      obtain ⟨haccepted, rfl⟩ := (setKnown_text old member).mp hset
      obtain ⟨hall, hvalue⟩ := (ih _).mp hrest
      exact ⟨⟨haccepted, hall⟩, hvalue⟩
    · rintro ⟨⟨haccepted, hall⟩, hvalue⟩
      exact ⟨_, (setKnown_text old member).mpr ⟨haccepted, rfl⟩, (ih _).mpr ⟨hall, hvalue⟩⟩

/-- **The bodies that are accepted**, for a field of type `string`, and what they
give: they come to their end within 16384 bytes, and are the text of `null`, or of
an object whose members all name the field and have a string or `null`; the last
string counts. -/
theorem text_eq_some_iff :
    text field body = some value
      ↔ body.fails = false ∧ body.bytes.length ≤ maxBody
        ∧ (Json.parse body.bytes = some .null ∧ value = []
          ∨ ∃ members, Json.parse body.bytes = some (.object members)
            ∧ (∀ member ∈ members, Accepted field member)
            ∧ value = ((members.filterMap textOf).getLast?).getD []) := by
  unfold text read
  by_cases hbad : body.fails ∨ maxBody < body.bytes.length
  · rw [if_pos hbad]
    refine iff_of_false (fun h => by cases h) (fun h => ?_)
    rcases hbad with hfails | hlong
    · rw [h.1] at hfails
      cases hfails
    · exact absurd h.2.1 (not_le.mpr hlong)
  rw [if_neg hbad]
  rw [not_or, Bool.not_eq_true, not_lt] at hbad
  rw [and_iff_right hbad.1, and_iff_right hbad.2]
  cases hparse : Json.parse body.bytes with
  | none => simp
  | some v =>
    rw [Option.bind_some]
    cases v with
    | object members =>
      show members.foldlM _ _ = _ ↔ _
      rw [foldlM_text]
      simp
    | null => simp [decodeKnown, eq_comm]
    | bool b => simp [decodeKnown]
    | number text => simp [decodeKnown]
    | string text => simp [decodeKnown]
    | array items => simp [decodeKnown]

/-- **A text read from a body is UTF-8**, whatever the body. -/
theorem isUTF8_of_text (h : text field body = some value) : IsUTF8 value := by
  obtain ⟨_, _, ⟨_, rfl⟩ | ⟨members, hparse, _, rfl⟩⟩ := text_eq_some_iff.mp h
  · exact ⟨[], rfl⟩
  · cases hlast : (members.filterMap textOf).getLast? with
    | none => exact ⟨[], rfl⟩
    | some last =>
      have hmem := List.mem_of_getLast? hlast
      obtain ⟨⟨name, v⟩, hmember, htext⟩ := List.mem_filterMap.mp hmem
      have hcoerced := (Json.coerced_of_mem (Json.coerced_of_parse hparse) hmember).2
      unfold textOf at htext
      cases v with
      | string t =>
        obtain rfl := Option.some.inj htext
        exact (isUTF8_iff _).mpr (Json.string.inj hcoerced)
      | _ => cases htext

end Text

/-- The array of an earlier member is used again. -/
example : batch
    ⟨str "\x7b\"commands\":[\"a\",\"b\"],\"COMMANDS\":[\"c\"],\"commands\":[null,null]\x7d", false⟩
      = some (some [str "c", str "b"]) := by decide +kernel

end Api

end WasmRedis
