import WasmRedis.JournalFile

/-!
# A crash at any byte

The process may stop in any system call of `AppendAOF`, and any number of the
bytes of its write have then reached the journal: the cut falls between two
lines or inside one, in the middle of an escape or of a character. The next
`ReadAOF` reads the operations the journal had and those of the new ones whose
whole line, newline included, has reached it, and leaves exactly these lines, so
that what is appended next follows them. `WriteSnapshot` and `ClearAOF` leave
their file as it was, or with the whole of the new content.
-/

namespace WasmRedis

open GoString Lines

namespace FileStorage

variable [EncodingJSON]

/-- An `AppendAOF` adds the first bytes of the new lines, all of them if it
returns nil. -/
theorem appendAOF_contents (s : FileStorage) (disk : Disk) {new : List Op}
    {lines : List (Line newline)} (hlines : List.Forall₂ Writes new lines)
    (replies : AppendReplies) :
    ∃ k ≤ (join lines).length,
      (s.appendAOF disk new replies).2.contents s.aofPath
          = disk.contents s.aofPath ++ (join lines).take k
        ∧ ((s.appendAOF disk new replies).1 = .nil → k = (join lines).length)
        ∧ Disk.Only s.aofPath disk (s.appendAOF disk new replies).2 := by
  have hdata := encode_lines hlines
  by_cases hne : new = []
  · subst hne
    obtain rfl := List.forall₂_nil_left_iff.mp hlines
    exact ⟨0, le_rfl, (List.append_nil _).symm, fun _ => rfl, Disk.Only.refl _ _⟩
  · have hspec := s.appendAOF_spec disk hne hdata replies
    refine ⟨min (replies.left (join lines).length) (join lines).length, min_le_right _ _, ?_,
      fun hnil => ?_, hspec.only⟩
    · rw [hspec.contents, ← List.take_take, List.take_length]
    · rw [hspec.nil hnil, min_self]

/-- **What is read after an `AppendAOF` that went any way at all**: the
operations of the lines that reached the journal whole. -/
theorem read_after_append [EncodingJSON.Lawful] (s : FileStorage) (disk : Disk)
    {ops new : List Op} (h : WellFormed (disk.contents s.aofPath) ops)
    (hnew : ∀ op ∈ new, op.Encodable) (replies : AppendReplies) :
    ∃ n ≤ new.length,
      (∀ i < new.length, i < n ↔ ∃ bytes, encode (new.take (i + 1)) = .ok bytes
        ∧ bytes.length ≤ ((s.appendAOF disk new replies).2.contents s.aofPath).length
          - (disk.contents s.aofPath).length)
      ∧ ((s.appendAOF disk new replies).1 = .nil → n = new.length)
      ∧ ∃ read, s.readAOF (s.appendAOF disk new replies).2 {} = (.ok (ops ++ new.take n), read)
        ∧ (∃ bytes, encode (new.take n) = .ok bytes
          ∧ read.contents s.aofPath = disk.contents s.aofPath ++ bytes)
        ∧ WellFormed (read.contents s.aofPath) (ops ++ new.take n) := by
  obtain ⟨lines, hlines⟩ := exists_lines hnew
  obtain ⟨k, hk, hcontents, hnil, _⟩ := s.appendAOF_contents disk hlines replies
  have hadded : ((s.appendAOF disk new replies).2.contents s.aofPath).length
      - (disk.contents s.aofPath).length = k := by
    rw [hcontents, List.length_append, List.length_take, min_eq_left hk]
    omega
  obtain ⟨n, hn, ⟨all, tail, hall, hread, hjoin⟩, hwhole, hlast⟩ := h.append hlines k
  have hencode : ∀ i, encode (new.take i) = .ok (join (lines.take i)) := fun i =>
    encode_lines (List.forall₂_take i hlines)
  refine ⟨n, hn, fun i hi => ?_, fun hended => hlast (hnil hended).ge, ?_⟩
  · rw [hwhole i hi, hadded, hencode]
    constructor
    · exact fun hle => ⟨_, rfl, hle⟩
    · rintro ⟨bytes, hbytes, hle⟩
      rwa [Except.ok.inj hbytes]
  · obtain ⟨read, hreads, hleft, _⟩ := s.readAOF_spec (hcontents.trans hall) hread
    refine ⟨read, hreads, ⟨_, hencode n, hleft.trans hjoin⟩, ?_⟩
    rw [hleft]
    exact wellFormed_join hread

/-- What is appended to a well-formed journal is read after what it had. -/
theorem append_then_read [EncodingJSON.Lawful] (s : FileStorage) (disk : Disk)
    {ops new : List Op} (h : WellFormed (disk.contents s.aofPath) ops)
    (hnew : ∀ op ∈ new, op.Encodable) :
    ∃ appended read, s.appendAOF disk new {} = (.nil, appended)
      ∧ s.readAOF appended {} = (.ok (ops ++ new), read) := by
  obtain ⟨lines, hlines⟩ := exists_lines hnew
  have hnil := s.appendAOF_ok disk (encode_lines hlines)
  obtain ⟨n, _, _, hall, read, hread, _⟩ := s.read_after_append disk h hnew {}
  rw [hall hnil, List.take_length] at hread
  exact ⟨_, read, Prod.ext hnil rfl, hread⟩

/-- **A crash at any byte or step.** After an `AppendAOF` in which the process
stops anywhere, or which returns an error, the next `ReadAOF` returns the
operations the journal had and the new ones whose whole line is in what reached
the file; it leaves exactly these lines, and what is appended next is read after
them. A `WriteSnapshot` or a `ClearAOF` that stops anywhere leaves its file as it
was, or with the whole of its new content. -/
theorem survives_crash [EncodingJSON.Lawful] (s : FileStorage) (disk : Disk) :
    (∀ (ops new : List Op) (replies : AppendReplies),
      WellFormed (disk.contents s.aofPath) ops → (∀ op ∈ new, op.Encodable) →
      let crashed := (s.appendAOF disk new replies).2
      let reached := (crashed.contents s.aofPath).length - (disk.contents s.aofPath).length
      ∃ n ≤ new.length,
        (∀ i < new.length, i < n ↔
          ∃ bytes, encode (new.take (i + 1)) = .ok bytes ∧ bytes.length ≤ reached)
        ∧ ∃ read, s.readAOF crashed {} = (.ok (ops ++ new.take n), read)
          ∧ (∃ bytes, encode (new.take n) = .ok bytes
            ∧ read.contents s.aofPath = disk.contents s.aofPath ++ bytes)
          ∧ ∀ later : List Op, (∀ op ∈ later, op.Encodable) →
            ∃ appended read', s.appendAOF read later {} = (.nil, appended)
              ∧ s.readAOF appended {} = (.ok (ops ++ new.take n ++ later), read'))
    ∧ (∀ (snapshot : Snapshot) (replies : AtomicReplies), replies.temp ≠ s.snapshotPath →
      let crashed := (s.writeSnapshot disk snapshot replies).2
      crashed.lookup s.snapshotPath = disk.lookup s.snapshotPath
        ∨ ∃ data, EncodingJSON.marshalSnapshot snapshot = .ok data
          ∧ crashed.lookup s.snapshotPath = some data)
    ∧ (∀ replies : AtomicReplies, replies.temp ≠ s.aofPath →
      let crashed := (s.clearAOF disk replies).2
      crashed.lookup s.aofPath = disk.lookup s.aofPath
        ∨ crashed.lookup s.aofPath = some []) := by
  refine ⟨fun ops new replies h hnew => ?_, fun snapshot replies htemp => ?_,
    fun replies htemp => ?_⟩
  · obtain ⟨n, hn, hwhole, _, read, hread, hbytes, hwf⟩ :=
      s.read_after_append disk h hnew replies
    exact ⟨n, hn, hwhole, read, hread, hbytes,
      fun later hlater => s.append_then_read read hwf hlater⟩
  · unfold writeSnapshot
    cases hdata : EncodingJSON.marshalSnapshot snapshot with
    | error err => exact .inl rfl
    | ok data =>
      exact (writeAtomic_spec s.snapshotPath data disk htemp).target.imp_right
        (fun htarget => ⟨data, rfl, htarget⟩)
  · exact (writeAtomic_spec s.aofPath [] disk htemp).target

end FileStorage

/-- Two files. -/
def files : FileStorage := { aofPath := str "aof", snapshotPath := str "snapshot" }

/-- A `SET` of a text. -/
def setOp (sequence : ℕ) (key value : String) : Op :=
  { sequence := sequence, kind := str "SET", key := str key, value := str value,
    isNumber := false, expiresAt := 0 }

theorem setOp_encodable {sequence : ℕ} (h : sequence < 2 ^ 64) (key value : String) :
    (setOp sequence key value).Encodable :=
  ⟨h, isUTF8_str _, isUTF8_str _, isUTF8_str _⟩

/-- The write of two operations that is cut after 90 bytes, and a `ClearAOF` that
stops after its `Rename`. -/
theorem survives_crash_files :
    (∃ n ≤ 2, ∃ read,
      files.readAOF (files.appendAOF ∅ [setOp 1 "a" "1", setOp 2 "é" "\n"]
          { write := .stop 90 }).2 {}
        = (.ok ([setOp 1 "a" "1", setOp 2 "é" "\n"].take n), read))
    ∧ ((files.clearAOF ∅ { temp := str "temp", syncDir := .stop () }).2.lookup (str "aof") = none
      ∨ (files.clearAOF ∅ { temp := str "temp", syncDir := .stop () }).2.lookup (str "aof")
        = some []) := by
  obtain ⟨happend, _, hclear⟩ := files.survives_crash ∅
  constructor
  · have hnew : ∀ op ∈ [setOp 1 "a" "1", setOp 2 "é" "\n"], op.Encodable :=
      List.forall_mem_cons.mpr ⟨setOp_encodable (by decide) _ _,
        List.forall_mem_singleton.mpr (setOp_encodable (by decide) _ _)⟩
    obtain ⟨n, hn, _, read, hread, _⟩ :=
      happend [] _ { write := .stop 90 } FileStorage.wellFormed_nil hnew
    exact ⟨n, hn, read, hread⟩
  · exact hclear { temp := str "temp", syncDir := .stop () } (by decide)

end WasmRedis
