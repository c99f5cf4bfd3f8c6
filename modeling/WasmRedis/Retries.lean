import WasmRedis.Crashes
import WasmRedis.Foundation.Runs

/-!
# Flushes that fail and are tried again

`flush` keeps the buffer when `AppendAOF` returns an error, and hands it over
again at the next flush. This module follows the journal through any such
sequence, in which any system call may fail, and keeps beside it, as a ghost,
what was acknowledged: the operations the journal had, and those of every
`AppendAOF` that returned nil.

A failed `AppendAOF` truncates the journal back. If the truncation fails too, a
part of the batch stays: whole lines, which the retry repeats, and a torn one.
The retry does not look at what it continues from, and its first line is glued
to the torn one (`retry_after_torn_write`). As long as no call that finds a torn
line leaves a newline, the journal reads in every state as operations that
contain, in order, those that were acknowledged (`readable`). Once a whole line
does not read, no later call makes the journal readable again
(`unreadable_for_good`).
-/

namespace WasmRedis

open GoString Lines

/-- The files, the buffer of an engine, and the ghost of what was acknowledged. -/
structure Flushing where
  /-- The files. -/
  disk : Disk
  /-- The operations recorded and not flushed. -/
  buffer : List Op
  /-- The operations the journal had, and those of every `AppendAOF` that
  returned nil. -/
  acknowledged : List Op

namespace Flushing

/-- What happens between two restarts. -/
inductive Event where
  /-- The engine records operations. -/
  | record (ops : List Op)
  /-- The engine flushes. -/
  | flush (replies : AppendReplies)

/-- A journal before the first event. -/
def start (disk : Disk) (ops : List Op) : Flushing :=
  { disk := disk, buffer := [], acknowledged := ops }

/-- The texts of the operations recorded are valid UTF-8. -/
def admits (_ : Flushing) : Event → Prop
  | .record ops => ∀ op ∈ ops, op.Encodable
  | .flush _ => True

section

variable [EncodingJSON]

/-- `e.flush()`, over the files. -/
def flush (s : FileStorage) (f : Flushing) (replies : AppendReplies) : Return × Flushing :=
  if f.buffer = [] then (.nil, f)
  else
    match s.appendAOF f.disk f.buffer replies with
    | (.nil, disk) =>
      (.nil, { disk := disk, buffer := [], acknowledged := f.acknowledged ++ f.buffer })
    | (ended, disk) => (ended, { f with disk := disk })

/-- One event. -/
def step (s : FileStorage) (f : Flushing) : Event → Return × Flushing
  | .record ops => (.nil, { f with buffer := f.buffer ++ ops })
  | .flush replies => f.flush s replies

/-- The flushes of an engine, as a system. -/
def system (s : FileStorage) : System Flushing Event Return where
  admits := admits
  step := step s

/-- **No line is glued to a torn one**: the call finds the journal on a line
boundary, or leaves no newline there. -/
def Clean (s : FileStorage) (f : Flushing) : Event → Prop
  | .record _ => True
  | .flush replies =>
    Ended newline (f.disk.contents s.aofPath)
      ∨ ∀ data, FileStorage.encode f.buffer = .ok data →
        newline ∉ data.take (replies.left data.length)

/-! ## Clean runs -/

/-- **The invariant**: the journal reads as operations that contain, in order,
those that were acknowledged. -/
structure Readable (s : FileStorage) (f : Flushing) : Prop where
  /-- The operations of the buffer can be written. -/
  buffer : ∀ op ∈ f.buffer, op.Encodable
  /-- The journal reads as operations that contain those acknowledged. -/
  journal : ∃ ops, FileStorage.Reads (f.disk.contents s.aofPath) ops
    ∧ f.acknowledged.Sublist ops

/-- **What a clean `AppendAOF` adds** to the operations the journal reads as: the
first of the batch, and all of them if it returns nil. -/
theorem reads_append [EncodingJSON.Lawful] {s : FileStorage} {f : Flushing} {ops : List Op}
    {replies : AppendReplies} (hclean : f.Clean s (.flush replies))
    (hbuffer : ∀ op ∈ f.buffer, op.Encodable) (hne : f.buffer ≠ [])
    (h : FileStorage.Reads (f.disk.contents s.aofPath) ops) :
    ∃ n, FileStorage.Reads
        ((s.appendAOF f.disk f.buffer replies).2.contents s.aofPath) (ops ++ f.buffer.take n)
      ∧ ((s.appendAOF f.disk f.buffer replies).1 = .nil → f.buffer.length ≤ n) := by
  obtain ⟨lines, hlines⟩ := FileStorage.exists_lines hbuffer
  have hdata := FileStorage.encode_lines hlines
  have hspec := s.appendAOF_spec f.disk hne hdata replies
  rw [hspec.contents]
  by_cases hended : Ended newline (f.disk.contents s.aofPath)
  · have hwf : FileStorage.WellFormed (f.disk.contents s.aofPath) ops := ⟨h, hended⟩
    obtain ⟨n, _, ⟨all, tail, hall, hread, _⟩, _, hlast⟩ :=
      hwf.append hlines (replies.left (join lines).length)
    exact ⟨n, ⟨all, tail, hall, hread⟩, fun hnil => (hlast (hspec.nil hnil).ge).ge⟩
  · -- the torn line goes on, and no line is added
    have hnone := hclean.resolve_left hended _ hdata
    refine ⟨0, ?_, fun hnil => ?_⟩
    · rw [List.take_zero, List.append_nil]
      exact h.append hnone
    · rw [hspec.nil hnil, List.take_length] at hnone
      cases lines with
      | nil => exact absurd (List.forall₂_nil_right_iff.mp hlines) hne
      | cons line lines =>
        rw [join_cons] at hnone
        exact absurd (List.mem_append_right _ List.mem_cons_self) hnone

/-- **A clean event keeps the journal readable.** -/
theorem Readable.step [EncodingJSON.Lawful] {s : FileStorage} {f : Flushing} (h : f.Readable s)
    {e : Event} (hadmits : f.admits e) (hclean : f.Clean s e) : (f.step s e).2.Readable s := by
  obtain ⟨ops, hreads, hsub⟩ := h.journal
  cases e with
  | record new => exact ⟨List.forall_mem_append.mpr ⟨h.buffer, hadmits⟩, ops, hreads, hsub⟩
  | flush replies =>
    show (f.flush s replies).2.Readable s
    unfold flush
    by_cases hne : f.buffer = []
    · rwa [if_pos hne]
    · rw [if_neg hne]
      obtain ⟨n, hreads', hall⟩ := reads_append hclean h.buffer hne hreads
      generalize s.appendAOF f.disk f.buffer replies = r at hreads' hall
      obtain ⟨ended, disk⟩ := r
      cases ended with
      | nil =>
        rw [List.take_of_length_le (hall rfl)] at hreads'
        exact ⟨List.forall_mem_nil _, _, hreads', hsub.append (List.Sublist.refl _)⟩
      | err e => exact ⟨h.buffer, _, hreads', hsub.trans (List.sublist_append_left _ _)⟩
      | stopped => exact ⟨h.buffer, _, hreads', hsub.trans (List.sublist_append_left _ _)⟩

theorem Readable.start {s : FileStorage} {disk : Disk} {ops : List Op}
    (h : FileStorage.WellFormed (disk.contents s.aofPath) ops) : (start disk ops).Readable s :=
  ⟨List.forall_mem_nil _, ops, h.reads, List.Sublist.refl _⟩

/-- **In every clean run**, from a well-formed journal, `ReadAOF` succeeds in
every state reached, and returns, in order and complete, the operations of every
`AppendAOF` that returned nil. -/
theorem readable [EncodingJSON.Lawful] {s : FileStorage} {disk : Disk} {ops : List Op}
    (h : FileStorage.WellFormed (disk.contents s.aofPath) ops) {events : List Event}
    (hadmits : (system s).Admits (start disk ops) events)
    (hclean : (system s).Throughout (fun f e _ => f.Clean s e) (start disk ops) events) :
    ∃ read disk',
      s.readAOF ((system s).after (start disk ops) events).disk {} = (.ok read, disk')
        ∧ ((system s).after (start disk ops) events).acknowledged.Sublist read := by
  have hreadable := System.Throughout.invariant (I := Readable s) hadmits hclean
    (Readable.start h) (fun f e hadm hcl hf => hf.step hadm hcl)
  obtain ⟨read, ⟨lines, tail, hcontent, hread⟩, hsub⟩ := hreadable.journal
  obtain ⟨disk', heq, _⟩ := s.readAOF_spec hcontent hread
  exact ⟨read, disk', heq, hsub⟩

end

/-- Three flushes of two operations: the first fails in its `Sync`, the second is
cut inside the first line, and both are rolled back. -/
def retried : List Event :=
  [.record [setOp 1 "a" "1", setOp 2 "b" "2"], .flush { sync := .fail () },
    .flush { write := .fail 30 }, .flush {}]

theorem readable_retried :
    ∃ read disk', files.readAOF ((system files).after (start ∅ []) retried).disk {}
        = (.ok read, disk')
      ∧ ((system files).after (start ∅ []) retried).acknowledged.Sublist read := by
  have hempty : FileStorage.WellFormed (Disk.contents ∅ files.aofPath) [] :=
    FileStorage.wellFormed_nil
  refine readable hempty ⟨?_, trivial, trivial, trivial, trivial⟩
    ⟨trivial, .inl (.inl rfl), ?_, ?_, trivial⟩
  · exact List.forall_mem_cons.mpr ⟨setOp_encodable (by decide) _ _,
      List.forall_mem_singleton.mpr (setOp_encodable (by decide) _ _)⟩
  · exact .inl (.inl (by decide))
  · exact .inl (.inl (by decide))

set_option maxRecDepth 4000 in
/-- **A retry after a torn write.** The first flush leaves one byte, because its
truncation fails; the second returns nil, and its line is glued to that byte. -/
theorem retry_after_torn_write :
    ¬ ∀ (s : FileStorage) (disk : Disk) (ops : List Op) (events : List Event)
      (replies : AppendReplies), FileStorage.WellFormed (disk.contents s.aofPath) ops →
      (system s).Admits (start disk ops) (events ++ [.flush replies]) →
      (system s).answer (start disk ops) events (.flush replies) = .nil →
      ∃ read disk', s.readAOF
          ((system s).after (start disk ops) (events ++ [.flush replies])).disk {}
            = (.ok read, disk')
        ∧ ((system s).after (start disk ops) (events ++ [.flush replies])).acknowledged.Sublist
          read := by
  intro h
  obtain ⟨read, disk', heq, _⟩ := h files ∅ []
    [.record [setOp 1 "a" "1"], .flush { write := .fail 1, truncate := .fail false }] {}
    FileStorage.wellFormed_nil
    ⟨List.forall_mem_singleton.mpr (setOp_encodable (by decide) _ _), trivial, trivial, trivial⟩
    (by decide)
  have herr : (files.readAOF ((system files).after (start ∅ [])
      [.record [setOp 1 "a" "1"], .flush { write := .fail 1, truncate := .fail false },
        .flush {}]).disk {}).1.isOk = false := by decide
  have hok := congrArg (fun r => r.1.isOk) heq
  exact Bool.noConfusion (herr.symm.trans hok)

/-! ## Runs that are not clean -/

section

variable [EncodingJSON]

/-- A whole line of the journal does not read. -/
def Unreadable (s : FileStorage) (f : Flushing) : Prop :=
  ∃ (lines : List (Line newline)) (tail : Line newline) (err : Err),
    f.disk.contents s.aofPath = join lines ++ tail.text
      ∧ FileStorage.decode 0 (lines.map (·.text)) = .error err

/-- Added bytes make no line read. -/
theorem Unreadable.append {s : FileStorage} {f f' : Flushing} (h : f.Unreadable s)
    {added : GoString} (hadded : f'.disk.contents s.aofPath = f.disk.contents s.aofPath ++ added) :
    f'.Unreadable s := by
  obtain ⟨lines, tail, err, hcontent, herr⟩ := h
  obtain ⟨more, tail', hmore⟩ :
      ∃ (more : List (Line newline)) (tail' : Line newline), tail.text ++ added = _ :=
    exists_join (tail.text ++ added)
  refine ⟨lines ++ more, tail', err, ?_, ?_⟩
  · rw [hadded, hcontent, List.append_assoc, hmore, join_append, List.append_assoc]
  · rw [List.map_append, FileStorage.decode_append, herr]
    rfl

theorem Unreadable.step {s : FileStorage} {f : Flushing} (h : f.Unreadable s) (e : Event) :
    (f.step s e).2.Unreadable s := by
  cases e with
  | record new => exact h
  | flush replies =>
    show (f.flush s replies).2.Unreadable s
    have hdisk : ∃ added, (f.flush s replies).2.disk.contents s.aofPath
        = f.disk.contents s.aofPath ++ added := by
      have hsame : (f.flush s replies).2.disk = (s.appendAOF f.disk f.buffer replies).2 := by
        unfold flush
        by_cases hne : f.buffer = []
        · rw [if_pos hne, hne, s.appendAOF_nil]
        · rw [if_neg hne]
          obtain ⟨ended, disk⟩ := s.appendAOF f.disk f.buffer replies
          cases ended <;> rfl
      rw [hsame]
      by_cases hne : f.buffer = []
      · exact ⟨[], by rw [hne, s.appendAOF_nil, List.append_nil]⟩
      · cases hdata : FileStorage.encode f.buffer with
        | error err =>
          refine ⟨[], ?_⟩
          unfold FileStorage.appendAOF
          rw [if_neg hne, hdata, List.append_nil]
        | ok data => exact ⟨_, (s.appendAOF_spec f.disk hne hdata replies).contents⟩
    obtain ⟨added, hadded⟩ := hdisk
    exact h.append hadded

/-- **A whole line that does not read stays**: whatever is flushed after it, and
however the calls end, `ReadAOF` returns an error. -/
theorem unreadable_for_good {s : FileStorage} {f : Flushing} (h : f.Unreadable s)
    (events : List Event) :
    ∃ err, (s.readAOF ((system s).after f events).disk {}).1 = .error (.err err) := by
  have hlast : ((system s).after f events).Unreadable s := by
    induction events generalizing f with
    | nil => exact h
    | cons e events ih => exact ih (h.step e)
  obtain ⟨lines, tail, err, hcontent, herr⟩ := hlast
  exact ⟨err, by rw [s.readAOF_error hcontent herr]⟩

end

end Flushing

end WasmRedis
