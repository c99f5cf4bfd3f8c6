import WasmRedis.Encoding

/-!
# What the calls do to the journal file

One lemma for each call of `FileStorage`, on the contents of the files. An
`AppendAOF` that is given any replies at all leaves the journal with some of the
bytes of its data added at the end, and how many is a function of the replies
(`AppendReplies.left`). `ReadAOF` reads the whole lines of the journal, and
removes the torn one. `writeAtomic` leaves its target as it was, or with the
whole of the new content.

The journal *reads as* some operations if its whole lines do, and is well formed
if, besides, no line is torn. Bytes added to a well-formed journal leave it
reading as the operations it had and those of the new ones whose whole line was
added (`WellFormed.append`).
-/

namespace WasmRedis

open GoString Lines

/-! ## Contents -/

namespace Disk

@[simp] theorem contents_insert (disk : Disk) (path data : GoString) :
    Disk.contents (disk.insert path data) path = data := by
  unfold contents
  rw [Finmap.lookup_insert]
  rfl

@[simp] theorem contents_create (disk : Disk) (path : GoString) :
    (disk.create path).contents path = disk.contents path := contents_insert _ _ _

@[simp] theorem contents_append (disk : Disk) (path data : GoString) :
    (disk.append path data).contents path = disk.contents path ++ data := contents_insert _ _ _

@[simp] theorem contents_truncate (disk : Disk) (path : GoString) (size : ℕ) :
    (disk.truncate path size).contents path = (disk.contents path).take size :=
  contents_insert _ _ _

/-- Only one file changes. -/
def Only (path : GoString) (disk disk' : Disk) : Prop :=
  ∀ other ≠ path, disk'.lookup other = disk.lookup other

theorem Only.refl (path : GoString) (disk : Disk) : Only path disk disk := fun _ _ => rfl

theorem Only.trans {path : GoString} {disk₁ disk₂ disk₃ : Disk} (h : Only path disk₁ disk₂)
    (h' : Only path disk₂ disk₃) : Only path disk₁ disk₃ :=
  fun other hne => (h' other hne).trans (h other hne)

theorem Only.insert (path data : GoString) (disk : Disk) : Only path disk (disk.insert path data) :=
  fun _ hne => Finmap.lookup_insert_of_ne _ hne

end Disk

/-- Whether a call has had its effect. -/
def Reply.done : Reply Bool → Bool
  | .ok => true
  | .fail done => done
  | .stop done => done

@[simp] theorem Reply.pass_snd (reply : Reply Unit) (disk : Disk) : (reply.pass disk).2 = disk := by
  cases reply <;> rfl

@[simp] theorem Reply.change_snd (reply : Reply Bool) (disk full : Disk) :
    (reply.change disk full).2 = if reply.done then full else disk := by
  cases reply <;> rfl

/-! ## AppendAOF -/

namespace AppendReplies

/-- How many of its bytes an `AppendAOF` that has opened the journal leaves
there. -/
def kept (replies : AppendReplies) (length : ℕ) : ℕ :=
  match replies.write, replies.sync with
  | .ok, .ok => length
  | .ok, .stop _ => length
  | .ok, .fail _ => if replies.truncate.done then 0 else length
  | .stop reached, _ => min reached length
  | .fail reached, _ => if replies.truncate.done then 0 else min reached length

/-- **How many bytes of its data an `AppendAOF` leaves in the journal.** -/
def left (replies : AppendReplies) (length : ℕ) : ℕ :=
  if replies.mkdir = .ok ∧ replies.openFile = .ok ∧ replies.stat = .ok then replies.kept length
  else 0

end AppendReplies

namespace FileStorage

variable (s : FileStorage)

theorem rollback_snd (size : ℕ) (err : Return) (disk : Disk) (replies : AppendReplies) :
    (s.rollback size err disk replies).2
      = if replies.truncate.done then disk.truncate s.aofPath size else disk := by
  unfold rollback
  cases replies.truncate <;> cases replies.resync <;> rfl

theorem rollback_fst (size : ℕ) (e : Err) (disk : Disk) (replies : AppendReplies) :
    (s.rollback size (.err e) disk replies).1 ≠ .nil := by
  unfold rollback
  cases replies.truncate <;> cases replies.resync <;> nofun

/-- What the rollback makes of a journal to which bytes were added. -/
theorem rollback_contents {size : ℕ} {err : Return} {disk : Disk} {replies : AppendReplies}
    {old added : GoString} (hsize : size = old.length)
    (hdisk : disk.contents s.aofPath = old ++ added) :
    (s.rollback size err disk replies).2.contents s.aofPath
      = old ++ if replies.truncate.done then [] else added := by
  rw [rollback_snd]
  split_ifs
  · rw [Disk.contents_truncate, hdisk, hsize, List.take_left', List.append_nil]
    rfl
  · exact hdisk

theorem rollback_only (size : ℕ) (err : Return) (disk : Disk) (replies : AppendReplies) :
    Disk.Only s.aofPath disk (s.rollback size err disk replies).2 := by
  rw [rollback_snd]
  split_ifs
  · exact Disk.Only.insert _ _ _
  · exact Disk.Only.refl _ _

/-- **What an `AppendAOF` leaves**, and what nil says. -/
structure Appended (disk : Disk) (data : GoString) (left : ℕ) (ended : Return × Disk) : Prop where
  /-- Some bytes of the data are added to the journal. -/
  contents : ended.2.contents s.aofPath = disk.contents s.aofPath ++ data.take left
  /-- After nil they all are. -/
  nil : ended.1 = .nil → left = data.length
  /-- No other file changes. -/
  only : Disk.Only s.aofPath disk ended.2

/-- A write of which some bytes reach the journal, and its rollback. -/
theorem appended_rollback (disk : Disk) (data : GoString) (reached : ℕ) {e : Err}
    (replies : AppendReplies) :
    s.Appended disk data (if replies.truncate.done then 0 else min reached data.length)
      (s.rollback (disk.contents s.aofPath).length (.err e)
        (disk.append s.aofPath (data.take reached)) replies) where
  contents := by
    rw [s.rollback_contents rfl (Disk.contents_append _ _ _)]
    split_ifs
    · rfl
    · rw [← List.take_take, List.take_length]
  nil h := absurd h (s.rollback_fst _ e _ _)
  only := (Disk.Only.insert _ _ _).trans (s.rollback_only _ _ _ _)

theorem appendData_spec (disk : Disk) (data : GoString) (replies : AppendReplies) :
    s.Appended disk data (replies.kept data.length) (s.appendData data disk replies) := by
  obtain ⟨mkdir, openFile, stat, write, sync, truncate, resync, syncDir⟩ := replies
  have honly : ∀ added, Disk.Only s.aofPath disk (disk.append s.aofPath added) :=
    fun _ => Disk.Only.insert _ _ _
  cases write with
  | ok =>
    cases sync with
    | ok =>
      have hdisk : (s.appendData data disk
          ⟨mkdir, openFile, stat, .ok, .ok, truncate, resync, syncDir⟩).2
            = disk.append s.aofPath data := Reply.pass_snd syncDir _
      refine ⟨?_, fun _ => rfl, ?_⟩
      · rw [hdisk, Disk.contents_append]
        exact congrArg _ (List.take_length).symm
      · rw [hdisk]
        exact honly data
    | fail _ =>
      have hroll := s.appended_rollback disk data data.length (e := Storage.failure)
        ⟨mkdir, openFile, stat, .ok, .fail (), truncate, resync, syncDir⟩
      rwa [List.take_length, min_self] at hroll
    | stop _ =>
      exact ⟨(Disk.contents_append _ _ _).trans (congrArg _ (List.take_length).symm), nofun,
        honly data⟩
  | fail reached =>
    exact s.appended_rollback disk data reached (e := Storage.failure)
      ⟨mkdir, openFile, stat, .fail reached, sync, truncate, resync, syncDir⟩
  | stop reached =>
    refine ⟨?_, nofun, honly _⟩
    refine (Disk.contents_append _ _ _).trans (congrArg _ ?_)
    show data.take reached = data.take (min reached data.length)
    rw [← List.take_take, List.take_length]

/-- An `AppendAOF` that has not opened the journal has written nothing. -/
theorem appended_unopened {disk disk' : Disk} {data : GoString} {ended : Return}
    (hended : ended ≠ .nil) (hdisk : disk' = disk ∨ disk' = disk.create s.aofPath) :
    s.Appended disk data 0 (ended, disk') := by
  refine ⟨?_, fun h => absurd h hended, ?_⟩
  · rw [List.take_zero, List.append_nil]
    obtain rfl | rfl := hdisk
    · rfl
    · exact Disk.contents_create _ _
  · obtain rfl | rfl := hdisk
    · exact Disk.Only.refl _ _
    · exact Disk.Only.insert _ _ _

variable [EncodingJSON]

/-- **What an `AppendAOF` does to the journal.** -/
theorem appendAOF_spec (disk : Disk) {ops : List Op} {data : GoString} (hne : ops ≠ [])
    (hdata : encode ops = .ok data) (replies : AppendReplies) :
    s.Appended disk data (replies.left data.length) (s.appendAOF disk ops replies) := by
  unfold appendAOF
  rw [if_neg hne, hdata]
  obtain ⟨mkdir, openFile, stat, write, sync, truncate, resync, syncDir⟩ := replies
  have hcreated : ∀ done : Bool, (if done then disk.create s.aofPath else disk) = disk
      ∨ (if done then disk.create s.aofPath else disk) = disk.create s.aofPath := fun done => by
    cases done
    · exact .inl rfl
    · exact .inr rfl
  cases mkdir with
  | fail _ => exact s.appended_unopened nofun (.inl rfl)
  | stop _ => exact s.appended_unopened nofun (.inl rfl)
  | ok =>
    cases openFile with
    | fail done => exact s.appended_unopened nofun (hcreated done)
    | stop done => exact s.appended_unopened nofun (hcreated done)
    | ok =>
      cases stat with
      | fail _ => exact s.appended_unopened nofun (.inr rfl)
      | stop _ => exact s.appended_unopened nofun (.inr rfl)
      | ok =>
        have hspec := s.appendData_spec (disk.create s.aofPath) data
          ⟨.ok, .ok, .ok, write, sync, truncate, resync, syncDir⟩
        exact ⟨hspec.contents.trans (by rw [Disk.contents_create]; rfl), hspec.nil,
          (Disk.Only.insert _ _ _).trans hspec.only⟩

theorem appendAOF_nil (disk : Disk) (replies : AppendReplies) :
    s.appendAOF disk [] replies = (.nil, disk) := rfl

/-- With no error on the way, an `AppendAOF` returns nil. -/
theorem appendAOF_ok (disk : Disk) {ops : List Op} {data : GoString}
    (hdata : encode ops = .ok data) :
    (s.appendAOF disk ops {}).1 = .nil := by
  unfold appendAOF
  rw [hdata]
  by_cases hne : ops = []
  · rw [if_pos hne]
  · rw [if_neg hne]
    rfl

/-! ## Lines -/

/-- The operation is written on the line, and read back from it. -/
structure Writes (op : Op) (line : Line newline) : Prop where
  /-- The line is the text of the operation. -/
  marshal : EncodingJSON.marshalOp op = .ok line.text
  /-- The line is not empty. -/
  ne_nil : line.text ≠ []
  /-- The text reads back as the operation. -/
  unmarshal : EncodingJSON.unmarshalOp line.text = .ok op

theorem exists_lines [EncodingJSON.Lawful] {ops : List Op} (h : ∀ op ∈ ops, op.Encodable) :
    ∃ lines, List.Forall₂ Writes ops lines := by
  induction ops with
  | nil => exact ⟨[], .nil⟩
  | cons op ops ih =>
    obtain ⟨line, hmarshal, hne, hunmarshal⟩ :=
      EncodingJSON.Lawful.marshalOp_line (h op List.mem_cons_self)
    obtain ⟨lines, hlines⟩ := ih (fun op' hop' => h op' (List.mem_cons_of_mem _ hop'))
    exact ⟨line :: lines, .cons ⟨hmarshal, hne, hunmarshal⟩ hlines⟩

theorem encode_lines {ops : List Op} {lines : List (Line newline)}
    (h : List.Forall₂ Writes ops lines) : encode ops = .ok (join lines) := by
  induction h with
  | nil => rfl
  | cons hop _ ih =>
    rw [encode, hop.marshal, join_cons]
    dsimp only
    rw [ih]

theorem decode_lines {ops : List Op} {lines : List (Line newline)}
    (h : List.Forall₂ Writes ops lines) (i : ℕ) : decode i (lines.map (·.text)) = .ok ops := by
  induction h generalizing i with
  | nil => rfl
  | cons hop _ ih =>
    rw [List.map_cons, decode, if_neg hop.ne_nil, hop.unmarshal]
    dsimp only
    rw [ih]

/-- The lines are read one after the other, up to one that does not read. -/
theorem decode_append (i : ℕ) (l m : List GoString) :
    decode i (l ++ m)
      = (decode i l).bind (fun ops => (decode (i + l.length) m).map (ops ++ ·)) := by
  induction l generalizing i with
  | nil =>
    show decode i m = (decode i m).map ([] ++ ·)
    cases decode i m <;> rfl
  | cons line l ih =>
    have hshift : i + (line :: l).length = i + 1 + l.length := by
      rw [List.length_cons]
      omega
    rw [List.cons_append, hshift, decode, decode]
    by_cases hline : line = []
    · rw [if_pos hline, if_pos hline, ih]
    · rw [if_neg hline, if_neg hline]
      cases EncodingJSON.unmarshalOp line with
      | error err => rfl
      | ok op =>
        dsimp only
        rw [ih]
        cases decode (i + 1) l with
        | error err => rfl
        | ok ops => cases decode (i + 1 + l.length) m <;> rfl

/-! ## ReadAOF -/

omit [EncodingJSON] in
theorem toNat_lastIndex (lines : List (Line newline)) (tail : Line newline) :
    (lastIndex newline (join lines ++ tail.text) + 1).toNat = (join lines).length := by
  rw [lastIndex_join, Int.toNat_natCast]

/-- The pieces that `ReadAOF` reads are the whole lines, and the empty piece after
the last newline. -/
theorem decode_splitOn (lines : List (Line newline)) (tail : Line newline) :
    decode 0 (((join lines ++ tail.text).take (join lines).length).splitOn newline)
      = decode 0 (lines.map (·.text)) := by
  have hpieces : (join lines).splitOn newline = lines.map (·.text) ++ [[]] := by
    have hsplit := splitOn_join lines (blank : Line newline)
    rwa [show (blank : Line newline).text = [] from rfl, List.append_nil] at hsplit
  rw [List.take_left' rfl, hpieces, decode_append]
  cases decode 0 (lines.map (·.text)) with
  | error err => rfl
  | ok ops => exact congrArg Except.ok (List.append_nil ops)

omit [EncodingJSON] in
/-- A journal that does not exist has no line. -/
theorem eq_nil_of_lookup {disk : Disk} {lines : List (Line newline)} {tail : Line newline}
    (h : disk.contents s.aofPath = join lines ++ tail.text) (hnone : disk.lookup s.aofPath = none) :
    lines = [] ∧ tail.text = [] := by
  have hempty : join lines ++ tail.text = [] := by
    rw [← h]
    unfold Disk.contents
    rw [hnone]
    rfl
  obtain ⟨hlines, htail⟩ := List.append_eq_nil_iff.mp hempty
  refine ⟨?_, htail⟩
  cases lines with
  | nil => rfl
  | cons l lines =>
    rw [join_cons] at hlines
    exact absurd hlines (List.append_ne_nil_of_right_ne_nil _ (List.cons_ne_nil _ _))

omit [EncodingJSON] in
theorem eq_of_lookup {disk : Disk} {content data : GoString}
    (h : disk.contents s.aofPath = content) (hdata : disk.lookup s.aofPath = some data) :
    data = content := by
  rw [← h]
  unfold Disk.contents
  rw [hdata]
  rfl

/-- **A `ReadAOF` reads the whole lines**, and removes the torn one. -/
theorem readAOF_ok {disk : Disk} {lines : List (Line newline)} {tail : Line newline}
    {ops : List Op} (h : disk.contents s.aofPath = join lines ++ tail.text)
    (hread : decode 0 (lines.map (·.text)) = .ok ops) :
    s.readAOF disk {} = (.ok ops,
      if tail.text = [] then disk else disk.truncate s.aofPath (join lines).length) := by
  unfold readAOF
  cases hdata : disk.lookup s.aofPath with
  | none =>
    obtain ⟨rfl, htail⟩ := s.eq_nil_of_lookup h hdata
    obtain rfl := Except.ok.inj hread
    simp only [Reply.pass, Reply.run, hdata, htail, if_true]
  | some data =>
    obtain rfl := s.eq_of_lookup h hdata
    simp only [Reply.pass, Reply.run, hdata, toNat_lastIndex, decode_splitOn, hread]
    by_cases htail : tail.text = []
    · rw [if_pos htail, if_neg (by rw [htail, List.append_nil]; exact lt_irrefl _)]
    · have hpos := List.length_pos_of_ne_nil htail
      rw [if_neg htail, if_pos (by rw [List.length_append]; omega)]
      rfl

/-- A `ReadAOF` returns the error of a line that does not read. -/
theorem readAOF_error {disk : Disk} {lines : List (Line newline)} {tail : Line newline}
    {err : Err} (h : disk.contents s.aofPath = join lines ++ tail.text)
    (hread : decode 0 (lines.map (·.text)) = .error err) :
    s.readAOF disk {} = (.error (.err err), disk) := by
  unfold readAOF
  cases hdata : disk.lookup s.aofPath with
  | none =>
    obtain ⟨rfl, _⟩ := s.eq_nil_of_lookup h hdata
    exact nomatch hread
  | some data =>
    obtain rfl := s.eq_of_lookup h hdata
    simp only [Reply.pass, Reply.run, hdata, toNat_lastIndex, decode_splitOn, hread]

/-- The whole lines of the content read as the operations; a line may be torn. -/
def Reads (content : GoString) (ops : List Op) : Prop :=
  ∃ (lines : List (Line newline)) (tail : Line newline),
    content = join lines ++ tail.text ∧ decode 0 (lines.map (·.text)) = .ok ops

/-- **A well-formed journal**: its lines read as the operations, and none is
torn. -/
structure WellFormed (content : GoString) (ops : List Op) : Prop where
  /-- The lines read as the operations. -/
  reads : Reads content ops
  /-- No line is torn. -/
  ended : Ended newline content

theorem WellFormed.exists_lines {content : GoString} {ops : List Op} (h : WellFormed content ops) :
    ∃ lines : List (Line newline), content = join lines
      ∧ decode 0 (lines.map (·.text)) = .ok ops := by
  obtain ⟨lines, tail, hcontent, hread⟩ := h.reads
  have htail := (ended_join lines tail).mp (hcontent ▸ h.ended)
  exact ⟨lines, by rw [hcontent, htail, List.append_nil], hread⟩

theorem wellFormed_join {lines : List (Line newline)} {ops : List Op}
    (h : decode 0 (lines.map (·.text)) = .ok ops) : WellFormed (join lines) ops where
  reads := ⟨lines, blank, (List.append_nil _).symm, h⟩
  ended := by
    have hended := (ended_join lines (blank : Line newline)).mpr rfl
    rwa [show (blank : Line newline).text = [] from rfl, List.append_nil] at hended

/-- An empty journal is well formed, and so is one that does not exist. -/
theorem wellFormed_nil : WellFormed [] [] :=
  wellFormed_join (show decode 0 (([] : List (Line newline)).map (·.text)) = .ok [] from rfl)

/-- **A `ReadAOF` reads the operations of the whole lines, and leaves these
lines.** -/
theorem readAOF_spec {disk : Disk} {lines : List (Line newline)} {tail : Line newline}
    {ops : List Op} (h : disk.contents s.aofPath = join lines ++ tail.text)
    (hread : decode 0 (lines.map (·.text)) = .ok ops) :
    ∃ disk', s.readAOF disk {} = (.ok ops, disk') ∧ disk'.contents s.aofPath = join lines
      ∧ Disk.Only s.aofPath disk disk' := by
  refine ⟨_, s.readAOF_ok h hread, ?_, ?_⟩
  · split_ifs with htail
    · rw [h, htail, List.append_nil]
    · rw [Disk.contents_truncate, h, List.take_left']
      rfl
  · split_ifs
    · exact Disk.Only.refl _ _
    · exact Disk.Only.insert _ _ _

/-! ## Bytes added to a journal -/

/-- **Bytes of new lines added to a well-formed journal** leave it with the lines
it had, the new ones that were added whole, and a torn one. -/
theorem WellFormed.append {content : GoString} {ops new : List Op} (h : WellFormed content ops)
    {lines : List (Line newline)} (hlines : List.Forall₂ Writes new lines) (k : ℕ) :
    ∃ n ≤ new.length, (∃ (all : List (Line newline)) (tail : Line newline),
      content ++ (join lines).take k = join all ++ tail.text
        ∧ decode 0 (all.map (·.text)) = .ok (ops ++ new.take n)
        ∧ join all = content ++ join (lines.take n))
      ∧ (∀ i < new.length, i < n ↔ (join (lines.take (i + 1))).length ≤ k)
      ∧ ((join lines).length ≤ k → n = new.length) := by
  obtain ⟨old, rfl, hread⟩ := h.exists_lines
  obtain ⟨n, tail, hn, htake, hwhole⟩ := take_join lines k
  rw [← hlines.length_eq] at hn hwhole
  refine ⟨n, hn, ⟨old ++ lines.take n, tail, ?_, ?_, join_append _ _⟩, hwhole, fun hall => ?_⟩
  · rw [htake, join_append, List.append_assoc]
  · rw [List.map_append, decode_append, hread]
    show (decode _ ((lines.take n).map (·.text))).map _ = _
    rw [decode_lines (List.forall₂_take n hlines)]
    rfl
  · -- were a line missing, it would not fit
    by_contra hne
    have hlast := (hwhole n (by omega)).not.mp (lt_irrefl n)
    have hprefix : join (lines.take (n + 1)) <+: join lines := by
      conv_rhs => rw [← List.take_append_drop (n + 1) lines, join_append]
      exact List.prefix_append _ _
    exact hlast (le_trans hprefix.length_le hall)

/-- Bytes without a newline leave the whole lines as they are. -/
theorem Reads.append {content : GoString} {ops : List Op} (h : Reads content ops)
    {added : GoString} (hadded : newline ∉ added) : Reads (content ++ added) ops := by
  obtain ⟨lines, tail, rfl, hread⟩ := h
  refine ⟨lines, ⟨tail.text ++ added, fun hmem => ?_⟩, List.append_assoc _ _ _, hread⟩
  exact (List.mem_append.mp hmem).elim tail.single hadded

end FileStorage

/-! ## writeAtomic -/

/-- **What a `writeAtomic` leaves**, and what nil says. -/
structure Replaced (path temp data : GoString) (disk : Disk) (ended : Return × Disk) : Prop where
  /-- The target has its old content or the new one. -/
  target : ended.2.lookup path = disk.lookup path ∨ ended.2.lookup path = some data
  /-- After nil it has the new one. -/
  nil : ended.1 = .nil → ended.2.lookup path = some data
  /-- No file changes but the target and the temporary file. -/
  others : ∀ other, other ≠ path → other ≠ temp → ended.2.lookup other = disk.lookup other

/-- The temporary file has some of the data, and after nil all of it. -/
theorem writeTemp_spec (data : GoString) (disk : Disk) (replies : AtomicReplies) :
    ∃ added, (writeTemp data disk replies).2 = disk.append replies.temp added
      ∧ ((writeTemp data disk replies).1 = .nil → added = data) := by
  obtain ⟨temp, mkdir, createTemp, write, sync, close, rename, syncDir, remove⟩ := replies
  cases write with
  | ok => cases sync <;> cases close <;> exact ⟨_, rfl, fun _ => rfl⟩
  | fail reached => cases close <;> exact ⟨_, rfl, nofun⟩
  | stop reached => exact ⟨_, rfl, nofun⟩

/-- As long as only the temporary file changes, the target has its old content. -/
theorem replaced_of_only {path temp data : GoString} {disk : Disk} {ended : Return × Disk}
    (htemp : temp ≠ path) (honly : Disk.Only temp disk ended.2) (hended : ended.1 ≠ .nil) :
    Replaced path temp data disk ended where
  target := .inl (honly path htemp.symm)
  nil h := absurd h hended
  others other _ hother := honly other hother

theorem replaceTarget_spec {path data : GoString} {disk : Disk} {replies : AtomicReplies}
    (htemp : replies.temp ≠ path) (hdata : disk.lookup replies.temp = some data) :
    Replaced path replies.temp data disk (replaceTarget path disk replies) := by
  obtain ⟨temp, mkdir, createTemp, write, sync, close, rename, syncDir, remove⟩ := replies
  have hrenamed : ∀ ended, Replaced path temp data disk (ended, disk.rename temp path) := by
    intro ended
    have hdisk : disk.rename temp path = (disk.erase temp).insert path data := by
      unfold Disk.rename
      rw [hdata]
    have hpath : (disk.rename temp path).lookup path = some data := by
      rw [hdisk, Finmap.lookup_insert]
    refine ⟨.inr hpath, fun _ => hpath, fun other hother hne => ?_⟩
    rw [hdisk, Finmap.lookup_insert_of_ne _ hother, Finmap.lookup_erase_ne hne]
  cases rename with
  | ok => cases syncDir <;> exact hrenamed _
  | fail done =>
    cases done
    · exact replaced_of_only htemp (Disk.Only.refl _ _) nofun
    · exact hrenamed _
  | stop done =>
    cases done
    · exact replaced_of_only htemp (Disk.Only.refl _ _) nofun
    · exact hrenamed _

/-- What comes before changes the temporary file only. -/
theorem Replaced.after {path temp data : GoString} {disk disk' : Disk} {ended : Return × Disk}
    (htemp : temp ≠ path) (honly : Disk.Only temp disk disk')
    (h : Replaced path temp data disk' ended) : Replaced path temp data disk ended where
  target := by rw [← honly path htemp.symm]; exact h.target
  nil := h.nil
  others other hother hne := (h.others other hother hne).trans (honly other hne)

/-- The deferred removal changes the temporary file only. -/
theorem Replaced.remove {path temp data : GoString} {disk : Disk} {ended : Return × Disk}
    (htemp : temp ≠ path) (h : Replaced path temp data disk ended) (remove : Reply Bool) :
    Replaced path temp data disk (Return.regardless ended fun err disk =>
      Return.regardless (remove.change disk (disk.erase temp)) fun _ disk => (err, disk)) := by
  obtain ⟨ended, disk'⟩ := ended
  have herased : ∀ ended', (ended' = .nil → ended = .nil) →
      Replaced path temp data disk (ended', disk'.erase temp) := by
    intro ended' hended
    have hsame : ∀ other ≠ temp, (disk'.erase temp).lookup other = disk'.lookup other :=
      fun other hother => Finmap.lookup_erase_ne hother
    refine ⟨?_, fun hnil => ?_, fun other hother hne => ?_⟩
    · rw [hsame path htemp.symm]
      exact h.target
    · rw [hsame path htemp.symm]
      exact h.nil (hended hnil)
    · rw [hsame other hne]
      exact h.others other hother hne
  have hkept : ∀ ended', (ended' = .nil → ended = .nil) →
      Replaced path temp data disk (ended', disk') := fun _ hended =>
    ⟨h.target, fun hnil => h.nil (hended hnil), h.others⟩
  cases ended with
  | stopped => exact h
  | nil =>
    cases remove with
    | ok => exact herased _ (fun _ => rfl)
    | fail done =>
      cases done
      · exact hkept _ (fun _ => rfl)
      · exact herased _ (fun _ => rfl)
    | stop done =>
      cases done
      · exact hkept _ nofun
      · exact herased _ nofun
  | err e =>
    cases remove with
    | ok => exact herased _ nofun
    | fail done =>
      cases done
      · exact hkept _ nofun
      · exact herased _ nofun
    | stop done =>
      cases done
      · exact hkept _ nofun
      · exact herased _ nofun

/-- Writing the temporary file and putting it in the place of the target. -/
theorem replaced_writeTemp {path data : GoString} (disk : Disk) {replies : AtomicReplies}
    (htemp : replies.temp ≠ path) :
    Replaced path replies.temp data disk
      (Return.andThen (writeTemp data (disk.insert replies.temp []) replies)
        (replaceTarget path · replies)) := by
  obtain ⟨added, hdisk, hnil⟩ := writeTemp_spec data (disk.insert replies.temp []) replies
  have honly : Disk.Only replies.temp disk
      (Disk.append (disk.insert replies.temp []) replies.temp added) :=
    (Disk.Only.insert _ _ _).trans (Disk.Only.insert _ _ _)
  generalize writeTemp data (disk.insert replies.temp []) replies = written at hdisk hnil
  obtain ⟨ended, disk'⟩ := written
  obtain rfl : disk' = _ := hdisk
  cases ended with
  | err e => exact replaced_of_only htemp honly nofun
  | stopped => exact replaced_of_only htemp honly nofun
  | nil =>
    obtain rfl := hnil rfl
    refine (replaceTarget_spec htemp ?_).after htemp honly
    unfold Disk.append
    rw [Finmap.lookup_insert, Disk.contents_insert, List.nil_append]

/-- **A `writeAtomic` leaves its target as it was, or with the whole content.** -/
theorem writeAtomic_spec (path data : GoString) (disk : Disk) {replies : AtomicReplies}
    (htemp : replies.temp ≠ path) :
    Replaced path replies.temp data disk (writeAtomic path data disk replies) := by
  have hwrite : Replaced path replies.temp data disk _ := replaced_writeTemp disk htemp
  have hcreated : ∀ done : Bool, Disk.Only replies.temp disk
      (if done then disk.insert replies.temp [] else disk) := fun done => by
    cases done
    · exact Disk.Only.refl _ _
    · exact Disk.Only.insert _ _ _
  obtain ⟨temp, mkdir, createTemp, write, sync, close, rename, syncDir, remove⟩ := replies
  cases mkdir with
  | fail _ => exact replaced_of_only htemp (Disk.Only.refl _ _) nofun
  | stop _ => exact replaced_of_only htemp (Disk.Only.refl _ _) nofun
  | ok =>
    cases createTemp with
    | fail done => exact replaced_of_only htemp (hcreated done) nofun
    | stop done => exact replaced_of_only htemp (hcreated done) nofun
    | ok => exact hwrite.remove htemp remove

end WasmRedis
