import WasmRedis.Storage
import WasmRedis.Foundation.Lines
import WasmRedis.Foundation.Strconv

/-!
# The files behind the storage

`FileStorage` keeps the journal in one file, one line of JSON for each
operation, and the snapshot in another. `AppendAOF` writes at the end of the
journal, and truncates it back to its old size if the write or its `Sync`
fails; `ReadAOF` truncates the torn line a crash has left. The snapshot and the
cleared journal are written to a temporary file that then takes the place of
the old one.

The disk is a map from paths to contents. Every system call is given a `Reply`:
it returns nil, it returns an error, or the process stops in it, and a call
that does not return nil has had a part of its effect, such as some of the
bytes of a write. Two calls on one `FileStorage` never overlap, because of its
mutex. `encoding/json` is a parameter, on which this module assumes nothing.
-/

namespace WasmRedis

open GoString Lines

/-- The byte that ends a line. -/
def newline : UInt8 := 10

/-- `encoding/json`, on the types of the storage. -/
class EncodingJSON where
  /-- `json.Marshal(op)`. -/
  marshalOp : Op → Except Err GoString
  /-- `json.Unmarshal(data, &op)`. -/
  unmarshalOp : GoString → Except Err Op
  /-- `json.Marshal(snapshot)`. -/
  marshalSnapshot : Snapshot → Except Err GoString
  /-- `json.Unmarshal(data, &snapshot)`: the number, and the entries unless they
  are nil. -/
  unmarshalSnapshot : GoString → Except Err (ℕ × Option (GoMap GoString Op))

/-! ## System calls -/

/-- The files of a disk. -/
abbrev Disk := GoMap GoString GoString

namespace Disk

/-- The content of a file, nothing if there is none. -/
def contents (disk : Disk) (path : GoString) : GoString := (disk.lookup path).getD []

/-- `os.OpenFile` with `O_CREATE`. -/
def create (disk : Disk) (path : GoString) : Disk := disk.insert path (disk.contents path)

/-- A write at the end of a file. -/
def append (disk : Disk) (path data : GoString) : Disk :=
  disk.insert path (disk.contents path ++ data)

/-- `file.Truncate(size)`, for a size the file has reached. -/
def truncate (disk : Disk) (path : GoString) (size : ℕ) : Disk :=
  disk.insert path ((disk.contents path).take size)

/-- `os.Rename(old, new)`, which replaces the target at once. -/
def rename (disk : Disk) (old new : GoString) : Disk :=
  match disk.lookup old with
  | none => disk
  | some data => (disk.erase old).insert new data

end Disk

/-- A system call that ends as its reply says: `full` is the disk when it has
its whole effect, `part` when it has some of it. -/
def Reply.run {E : Type} (reply : Reply E) (full : Disk) (part : E → Disk) : Return × Disk :=
  match reply with
  | .ok => (.nil, full)
  | .fail effect => (.err Storage.failure, part effect)
  | .stop effect => (.stopped, part effect)

/-- A system call that changes no file. -/
def Reply.pass (reply : Reply Unit) (disk : Disk) : Return × Disk := reply.run disk (fun _ => disk)

/-- A system call that has its effect or not. -/
def Reply.change (reply : Reply Bool) (disk full : Disk) : Return × Disk :=
  reply.run full (fun done => if done then full else disk)

/-- `file.Write(data)`, of which the first bytes reach the end of the file. -/
def Reply.write (reply : Reply ℕ) (disk : Disk) (path data : GoString) : Return × Disk :=
  reply.run (disk.append path data) (fun reached => disk.append path (data.take reached))

namespace Return

/-- `if err != nil { return err }`. -/
def andThen : Return × Disk → (Disk → Return × Disk) → Return × Disk
  | (.nil, disk), rest => rest disk
  | (.err e, disk), _ => (.err e, disk)
  | (.stopped, disk), _ => (.stopped, disk)

/-- What follows a call whether it returns an error or not. -/
def regardless : Return × Disk → (Return → Disk → Return × Disk) → Return × Disk
  | (.stopped, disk), _ => (.stopped, disk)
  | (.nil, disk), rest => rest .nil disk
  | (.err e, disk), rest => rest (.err e) disk

/-- The text of an error. -/
def text? : Return → Option GoString
  | .err e => some e.text
  | _ => none

/-- `errors.Join(errs...)`: nil if they all are, and else an error whose text has
one line for each. -/
def join (errs : List Return) : Return :=
  match errs.filterMap text? with
  | [] => .nil
  | texts => .err (.new ([newline].intercalate texts))

end Return

/-! ## The storage -/

/-- The paths of the two files. -/
structure FileStorage where
  /-- The journal. -/
  aofPath : GoString
  /-- The snapshot. -/
  snapshotPath : GoString

/-- The replies to the system calls of `AppendAOF`. -/
structure AppendReplies where
  /-- `os.MkdirAll`. -/
  mkdir : Reply Unit := .ok
  /-- `os.OpenFile`, which creates the file. -/
  openFile : Reply Bool := .ok
  /-- `file.Stat`. -/
  stat : Reply Unit := .ok
  /-- `file.Write`. -/
  write : Reply ℕ := .ok
  /-- `file.Sync`. -/
  sync : Reply Unit := .ok
  /-- `file.Truncate`, after an error. -/
  truncate : Reply Bool := .ok
  /-- `file.Sync`, after an error. -/
  resync : Reply Unit := .ok
  /-- The opening and the `Sync` of the directory. -/
  syncDir : Reply Unit := .ok

/-- The replies to the system calls of `ReadAOF`. -/
structure ReadReplies where
  /-- `os.ReadFile`. -/
  read : Reply Unit := .ok
  /-- `os.OpenFile`. -/
  openFile : Reply Unit := .ok
  /-- `file.Truncate`. -/
  truncate : Reply Bool := .ok
  /-- `file.Sync`. -/
  sync : Reply Unit := .ok
  /-- `file.Close`. -/
  close : Reply Unit := .ok

/-- The replies to the system calls of `writeAtomic`. -/
structure AtomicReplies where
  /-- The name `os.CreateTemp` chooses. -/
  temp : GoString
  /-- `os.MkdirAll`. -/
  mkdir : Reply Unit := .ok
  /-- `os.CreateTemp`. -/
  createTemp : Reply Bool := .ok
  /-- `file.Write`. -/
  write : Reply ℕ := .ok
  /-- `file.Sync`. -/
  sync : Reply Unit := .ok
  /-- `file.Close`. -/
  close : Reply Unit := .ok
  /-- `os.Rename`. -/
  rename : Reply Bool := .ok
  /-- The opening and the `Sync` of the directory. -/
  syncDir : Reply Unit := .ok
  /-- The deferred `os.Remove`, whose error is ignored. -/
  remove : Reply Bool := .ok

/-- The part of `writeAtomic` that writes the temporary file and closes it. -/
def writeTemp (data : GoString) (disk : Disk) (replies : AtomicReplies) : Return × Disk :=
  let written := Return.andThen (replies.write.write disk replies.temp data) replies.sync.pass
  Return.regardless written fun err disk =>
  Return.regardless (replies.close.pass disk) fun closing disk =>
  (Return.join [err, closing], disk)

/-- The part of `writeAtomic` that puts the temporary file in the place of the
target. -/
def replaceTarget (path : GoString) (disk : Disk) (replies : AtomicReplies) : Return × Disk :=
  Return.andThen (replies.rename.change disk (disk.rename replies.temp path)) replies.syncDir.pass

/-- `writeAtomic(path, data)`. -/
def writeAtomic (path data : GoString) (disk : Disk) (replies : AtomicReplies) : Return × Disk :=
  let temp := replies.temp
  Return.andThen (replies.mkdir.pass disk) fun disk =>
  Return.andThen (replies.createTemp.change disk (disk.insert temp [])) fun disk =>
  let replaced := Return.andThen (writeTemp data disk replies) (replaceTarget path · replies)
  -- the deferred calls
  Return.regardless replaced fun err disk =>
  Return.regardless (replies.remove.change disk (disk.erase temp)) fun _ disk =>
  (err, disk)

namespace FileStorage

variable [EncodingJSON]

open EncodingJSON

/-- The loop of `AppendAOF` over the operations: one line for each. -/
def encode : List Op → Except Err GoString
  | [] => .ok []
  | op :: ops =>
    match marshalOp op with
    | .error err => .error err
    | .ok line =>
      match encode ops with
      | .error err => .error err
      | .ok data => .ok (line ++ newline :: data)

omit [EncodingJSON] in
/-- The error path of `AppendAOF`: the file is truncated to the size it had, and
synchronised again, whatever the truncation returned. -/
def rollback (s : FileStorage) (size : ℕ) (err : Return) (disk : Disk)
    (replies : AppendReplies) : Return × Disk :=
  let truncated := replies.truncate.change disk (disk.truncate s.aofPath size)
  Return.regardless truncated fun truncating disk =>
  Return.regardless (replies.resync.pass disk) fun syncing disk =>
  (Return.join [err, truncating, syncing], disk)

omit [EncodingJSON] in
/-- The part of `AppendAOF` after the file is opened. -/
def appendData (s : FileStorage) (data : GoString) (disk : Disk) (replies : AppendReplies) :
    Return × Disk :=
  let size := (disk.contents s.aofPath).length
  let written := Return.andThen (replies.write.write disk s.aofPath data) replies.sync.pass
  Return.regardless written fun err disk =>
  if err = .nil then replies.syncDir.pass disk
  else s.rollback size err disk replies

/-- `s.AppendAOF(ops)`. -/
def appendAOF (s : FileStorage) (disk : Disk) (ops : List Op) (replies : AppendReplies) :
    Return × Disk :=
  if ops = [] then (.nil, disk)
  else
    match encode ops with
    | .error err => (.err err, disk)
    | .ok data =>
      Return.andThen (replies.mkdir.pass disk) fun disk =>
      Return.andThen (replies.openFile.change disk (disk.create s.aofPath)) fun disk =>
      Return.andThen (replies.stat.pass disk) fun disk =>
      s.appendData data disk replies

/-- The loop of `ReadAOF` over the lines, from the `i`-th on. -/
def decode (i : ℕ) : List GoString → Except Err (List Op)
  | [] => .ok []
  | line :: lines =>
    if line = [] then decode (i + 1) lines
    else
      match unmarshalOp line with
      | .error err => .error (.context (str "journal ligne " ++ Strconv.decimal (i + 1)) err)
      | .ok op =>
        match decode (i + 1) lines with
        | .error err => .error err
        | .ok ops => .ok (op :: ops)

omit [EncodingJSON] in
/-- The part of `ReadAOF` that removes the torn line. -/
def trim (s : FileStorage) (size : ℕ) (disk : Disk) (replies : ReadReplies) : Return × Disk :=
  Return.andThen (replies.openFile.pass disk) fun disk =>
  let truncated := Return.andThen
    (replies.truncate.change disk (disk.truncate s.aofPath size)) replies.sync.pass
  Return.regardless truncated fun err disk =>
  Return.regardless (replies.close.pass disk) fun closing disk =>
  (Return.join [err, closing], disk)

/-- `s.ReadAOF()`: the operations, or how the call ended without them. -/
def readAOF (s : FileStorage) (disk : Disk) (replies : ReadReplies) :
    Except Return (List Op) × Disk :=
  match replies.read.pass disk with
  | (.nil, disk) =>
    match disk.lookup s.aofPath with
    | none => (.ok [], disk)
    | some data =>
      let ends := (lastIndex newline data + 1).toNat
      match decode 0 ((data.take ends).splitOn newline) with
      | .error err => (.error (.err err), disk)
      | .ok ops =>
        if ends < data.length then
          match s.trim ends disk replies with
          | (.nil, disk) => (.ok ops, disk)
          | (ended, disk) => (.error ended, disk)
        else (.ok ops, disk)
  | (ended, disk) => (.error ended, disk)

omit [EncodingJSON] in
/-- `s.ClearAOF()`. -/
def clearAOF (s : FileStorage) (disk : Disk) (replies : AtomicReplies) : Return × Disk :=
  writeAtomic s.aofPath [] disk replies

/-- `s.WriteSnapshot(snapshot)`. -/
def writeSnapshot (s : FileStorage) (disk : Disk) (snapshot : Snapshot)
    (replies : AtomicReplies) : Return × Disk :=
  match marshalSnapshot snapshot with
  | .error err => (.err err, disk)
  | .ok data => writeAtomic s.snapshotPath data disk replies

/-- `s.ReadSnapshot()`. -/
def readSnapshot (s : FileStorage) (disk : Disk) (read : Reply Unit) : Except Return Snapshot :=
  match read.pass disk with
  | (.nil, disk) =>
    match disk.lookup s.snapshotPath with
    | none => .ok { sequence := 0, entries := ∅ }
    | some data =>
      match unmarshalSnapshot data with
      | .error err => .error (.err err)
      | .ok (_, none) => .error (.err (.new (str "snapshot invalide : entries absent")))
      | .ok (sequence, some entries) => .ok { sequence := sequence, entries := entries }
  | (ended, _) => .error ended

end FileStorage

end WasmRedis
