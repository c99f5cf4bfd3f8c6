import WasmRedis.Histories
import WasmRedis.Foundation.Slices

/-!
# Pages

`Page` has two loops: without a status it walks from the offset on, with one it counts
the tasks of that status as it meets them and stops when the page is full. Both build
the same thing, a slice of the tasks that are asked for (`pageAll_eq`,
`pageStatus_eq`). The total is not counted by either: it is the length of the queue or
one of its counts, and so it is right because the books are (`Sound.tallied`).
-/

namespace WasmRedis

open GoString Slices

namespace Status

theorem text_inj {status status' : Status} : status.text = status'.text ↔ status = status' := by
  constructor
  · intro h
    have hname := ofText_eq_some.mpr h
    rw [ofText_eq_some.mpr rfl] at hname
    exact Option.some.inj hname
  · exact congrArg text

theorem text_ne_nil (status : Status) : status.text ≠ [] := by
  cases status <;> decide

end Status

namespace Queues

/-- The tasks that `Page` is asked for: those of a status, or all of them. -/
def matching (status : GoString) (tasks : List Task) : List Task :=
  tasks.filter (fun task => status = [] ∨ task.status.text = status)

/-! ## The loops -/

/-- **The loop over all the tasks** takes as many as the page has room for. -/
theorem pageAll_eq (limit : ℤ) (tasks items : List Task) :
    pageAll limit tasks items = items ++ tasks.take (limit.toNat - items.length) := by
  induction tasks generalizing items with
  | nil => rw [List.take_nil, List.append_nil, pageAll]
  | cons task tasks ih =>
    rw [pageAll]
    split_ifs with hroom
    · have hlength : limit.toNat - items.length = limit.toNat - (items ++ [task]).length + 1 := by
        rw [List.length_append, List.length_singleton]
        omega
      rw [ih, hlength, List.take_succ_cons, List.append_assoc, List.singleton_append]
    · have hfull : limit.toNat - items.length = 0 := by omega
      rw [hfull, List.take_zero, List.append_nil]

/-- **The loop over the tasks of one status** passes over as many of them as remain to
the offset, and takes as many as the page has room for. -/
theorem pageStatus_eq (status : Status) (offset limit : ℤ) (tasks : List Task) {items : List Task}
    {seen : ℤ} (hroom : items.length < limit) :
    pageStatus status offset limit tasks items seen
      = items ++ slice (tasks.filter (fun task => task.status = status)) (offset - seen).toNat
          (limit.toNat - items.length) := by
  induction tasks generalizing items seen with
  | nil => simp [pageStatus, slice]
  | cons task tasks ih =>
    rw [pageStatus]
    by_cases hs : task.status = status
    · rw [if_neg (not_not.mpr hs), List.filter_cons, if_pos (decide_eq_true hs)]
      dsimp only
      by_cases hseen : seen ≥ offset
      · -- the offset is reached: the task is on the page
        have hoffset : (offset - seen).toNat = 0 := by omega
        have hoffset' : (offset - (seen + 1)).toNat = 0 := by omega
        have hlength : limit.toNat - items.length = limit.toNat - (items ++ [task]).length + 1 := by
          rw [List.length_append, List.length_singleton]
          omega
        rw [if_pos hseen, hoffset, slice, List.drop_zero, hlength, List.take_succ_cons]
        split_ifs with hfull
        · have hnone : limit.toNat - (items ++ [task]).length = 0 := by omega
          rw [hnone, List.take_zero]
        · have hroom' : ((items ++ [task]).length : ℤ) < limit := by
            rw [List.length_append, List.length_singleton] at hfull ⊢
            omega
          rw [ih hroom', hoffset', slice, List.drop_zero, List.append_assoc,
            List.singleton_append]
      · have hoffset : (offset - seen).toNat = (offset - (seen + 1)).toNat + 1 := by omega
        rw [if_neg hseen, if_neg hroom.ne, ih hroom, hoffset, slice, slice, List.drop_succ_cons]
    · rw [if_pos hs, List.filter_cons, if_neg (by simpa using hs)]
      exact ih hroom

/-! ## A page -/

/-- **A page is a slice of the tasks asked for**, and its total their number. -/
theorem page_eq {q : Queues} (h : q.Sound) {name : GoString} {entry : Queue}
    (hentry : q.queues.lookup name = some entry) {status : GoString}
    (hstatus : status = [] ∨ validStatus status = true) {offset limit : ℤ} (hoffset : 0 ≤ offset)
    (hlow : 1 ≤ limit) (hhigh : limit ≤ 200) :
    q.page name status offset limit
      = .ok { items := slice (matching status entry.tasks) offset.toNat limit.toNat
              total := (matching status entry.tasks).length
              offset := offset } := by
  have hlimits : ¬ (offset < 0 ∨ limit < 1 ∨ limit > 200 ∨ status ≠ [] ∧ !validStatus status) := by
    rintro (hneg | hneg | hneg | ⟨hne, hinvalid⟩)
    · exact absurd hoffset (not_le.mpr hneg)
    · exact absurd hlow (not_le.mpr hneg)
    · exact absurd hhigh (not_le.mpr hneg)
    · rw [hstatus.resolve_left hne] at hinvalid
      cases hinvalid
  unfold page
  rw [if_neg hlimits, hentry]
  dsimp only
  cases htext : Status.ofText status with
  | none =>
    -- no status is asked for
    have hnil : status = [] := by
      refine hstatus.resolve_right (fun hvalid => ?_)
      rw [validStatus, htext] at hvalid
      cases hvalid
    have hall : matching status entry.tasks = entry.tasks :=
      List.filter_eq_self.mpr (fun task _ => decide_eq_true (Or.inl hnil))
    dsimp only
    rw [hall, pageAll_eq, List.nil_append, List.length_nil, Nat.sub_zero, slice]
  | some asked =>
    have hmatching : matching status entry.tasks
        = entry.tasks.filter (fun task => task.status = asked) := by
      obtain rfl := Status.ofText_eq_some.mp htext
      refine List.filter_congr (fun task _ => decide_eq_decide.mpr ?_)
      rw [or_iff_right (Status.text_ne_nil asked), Status.text_inj]
    have hempty : (([] : List Task).length : ℤ) < limit := by
      rw [List.length_nil]
      exact hlow
    dsimp only
    rw [hmatching, pageStatus_eq asked offset limit entry.tasks hempty,
      h.tallied name entry hentry asked, Option.getD_some, List.countP_eq_length_filter,
      List.nil_append, sub_zero, List.length_nil, Nat.sub_zero]

/-- There is no page of a queue that does not exist. -/
theorem exists_of_page {q : Queues} {name status : GoString} {offset limit : ℤ} {page : TaskPage}
    (h : q.page name status offset limit = .ok page) :
    ∃ entry, q.queues.lookup name = some entry := by
  unfold Queues.page at h
  split_ifs at h
  cases hentry : q.queues.lookup name with
  | none =>
    rw [hentry] at h
    cases h
  | some entry => exact ⟨entry, rfl⟩

/-- **Paging**, in every reachable state. A page holds the tasks of the queue that are
asked for, in the order in which they were added, from the offset on and as many as the
limit; its total is their number; and the pages at the multiples of the limit that are
below the total hold every one of them once, in that order, which is the order of their
numbers. -/
theorem paging {q : Queues} (h : q.Reachable) {name : GoString} {entry : Queue}
    (hentry : q.queues.lookup name = some entry) {status : GoString}
    (hstatus : status = [] ∨ validStatus status = true) {limit : ℤ} (hlow : 1 ≤ limit)
    (hhigh : limit ≤ 200) :
    (∀ offset, 0 ≤ offset → q.page name status offset limit
      = .ok { items := ((matching status entry.tasks).drop offset.toNat).take limit.toNat
              total := (matching status entry.tasks).length
              offset := offset })
    ∧ (∃ pages, List.Forall₂ (fun (offset : ℕ) page => q.page name status offset limit = .ok page)
          (offsets limit.toNat (matching status entry.tasks).length) pages
        ∧ pages.flatMap TaskPage.items = matching status entry.tasks)
    ∧ ((matching status entry.tasks).map Task.id).Pairwise (· < ·) := by
  refine ⟨fun offset hoffset => page_eq h.sound hentry hstatus hoffset hlow hhigh,
    ⟨(offsets limit.toNat (matching status entry.tasks).length).map (fun offset =>
      { items := slice (matching status entry.tasks) offset limit.toNat
        total := (matching status entry.tasks).length
        offset := offset }), ?_, ?_⟩, ?_⟩
  · refine List.forall₂_map_right_iff.mpr (List.forall₂_same.mpr (fun offset _ => ?_))
    exact page_eq h.sound hentry hstatus (Int.natCast_nonneg offset) hlow hhigh
  · rw [List.flatMap_map]
    exact flatMap_slice _ (by omega)
  · exact (h.sound.increasing name entry hentry).sublist (List.filter_sublist.map Task.id)

/-- The pending tasks of a queue whose first task is running. -/
theorem paging_emails :
    (system.after new emails).page (str "emails") (str "pending") 0 1
      = .ok { items := [⟨2, str "second", .pending, 0⟩], total := 1, offset := 0 } := by
  have hqueue : ∃ entry, (system.after new emails).queues.lookup (str "emails") = some entry
      ∧ entry.tasks = [⟨1, str "premier", .running, 0⟩, ⟨2, str "second", .pending, 0⟩] :=
    ⟨_, rfl, rfl⟩
  obtain ⟨entry, hentry, htasks⟩ := hqueue
  rw [(paging ⟨emails, rfl⟩ hentry (.inr (by decide)) le_rfl (by decide)).1 0 le_rfl, htasks]
  decide

end Queues

end WasmRedis
