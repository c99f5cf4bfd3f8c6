import WasmRedis.Api
import WasmRedis.Paging
import WasmRedis.Window

/-!
# The page behind the window

The component asks for the page that starts at the hundred before its first row. The
target it builds is one that the server takes for the pages of that queue, with the
parameters that were meant (`getTasks_values`), so an answer is a page as `Page` gives
it. As the rows that are built are less than a hundred, they are all on a page of two
hundred, and each finds its task there (`window`).
-/

namespace WasmRedis

open GoString

namespace TaskList

variable {c : TaskList}

/-! ## What is asked for -/

theorem offset_nonneg (c : TaskList) : 0 ≤ c.offset := by
  have hfirst : (0 : ℚ) ≤ c.first := by exact_mod_cast le_max_left _ _
  exact mul_nonneg (Int.floor_nonneg.mpr (div_nonneg hfirst (by norm_num [pageSize])))
    (by norm_num [pageSize])

/-- The offset is written with digits. -/
theorem ofInt_offset (c : TaskList) : Field.ofInt c.offset = Strconv.decimal c.offset.toNat := by
  have hoffset := c.offset_nonneg
  unfold Field.ofInt
  rw [if_neg (not_lt.mpr hoffset)]
  congr 1
  omega

theorem plain_decimal (n : ℕ) : Targets.Plain (Strconv.decimal n) := by
  intro b hb
  have hdigit := Strconv.isDigit_of_mem_decimal hb
  unfold Targets.isKept
  simp [hdigit]

/-- A status is written with letters. -/
theorem plain_status {status : GoString} (h : status = [] ∨ validStatus status = true) :
    Targets.Plain status := by
  obtain rfl | hvalid := h
  · exact fun _ hb => absurd hb List.not_mem_nil
  · unfold validStatus at hvalid
    obtain ⟨s, hs⟩ := Option.isSome_iff_exists.mp hvalid
    obtain rfl := Status.ofText_eq_some.mp hs
    cases s <;> decide

/-- The parameters of the request. -/
def values (c : TaskList) : List (GoString × GoString) :=
  [(str "offset", Field.ofInt c.offset), (str "limit", str "200"), (str "status", c.filter)]

/-- The target is a path and a query. -/
theorem cut_path {name : GoString} (hbase : c.base = QueueView.base name) :
    Targets.cut 63 c.path
      = (str "/api/queues/" ++ Targets.encodeURIComponent name ++ str "/tasks",
        Targets.query c.values) := by
  have hpath : c.path = (str "/api/queues/" ++ Targets.encodeURIComponent name ++ str "/tasks")
      ++ 63 :: Targets.query c.values := by
    have hquery : str "/tasks?offset=" = str "/tasks" ++ 63 :: (str "offset" ++ [61]) := by decide
    have hlimit : str "&limit=200&status="
        = 38 :: (str "limit" ++ 61 :: str "200") ++ 38 :: (str "status" ++ [61]) := by decide
    unfold path values Targets.query
    rw [hbase, QueueView.base, hquery, hlimit]
    simp [List.intercalate]
  have hmark : (63 : UInt8)
      ∉ str "/api/queues/" ++ Targets.encodeURIComponent name ++ str "/tasks" := by
    have hname := Targets.not_mem_encodeURIComponent (c := 63) (by decide) (by decide) name
    simp only [List.mem_append, not_or]
    exact ⟨⟨by decide, hname⟩, by decide⟩
  rw [hpath, Targets.cut_append hmark]

/-- The segments of the path. -/
theorem segments_path (name : GoString) :
    Targets.segments (str "/api/queues/" ++ Targets.encodeURIComponent name ++ str "/tasks")
      = some [[], str "api", str "queues", name, str "tasks"] := by
  have hname := Targets.not_mem_encodeURIComponent (c := 47) (by decide) (by decide) name
  have hpath : str "/api/queues/" ++ Targets.encodeURIComponent name ++ str "/tasks"
      = [] ++ 47 :: (str "api" ++ 47 :: (str "queues"
        ++ 47 :: (Targets.encodeURIComponent name ++ 47 :: str "tasks"))) := by
    have hhead : str "/api/queues/" = 47 :: (str "api" ++ 47 :: (str "queues" ++ [47])) := by
      decide
    have htail : str "/tasks" = 47 :: str "tasks" := by decide
    rw [hhead, htail]
    simp
  unfold Targets.segments
  rw [hpath, List.splitOn_append_cons_self_of_not_mem List.not_mem_nil,
    List.splitOn_append_cons_self_of_not_mem (by decide),
    List.splitOn_append_cons_self_of_not_mem (by decide),
    List.splitOn_append_cons_self_of_not_mem hname, List.splitOn_eq_singleton (by decide)]
  simp only [List.mapM_cons, List.mapM_nil, Targets.unescape_encode]
  rfl

/-- The current path is one of the route of the pages. -/
theorem get_path (q : Queues) {name : GoString} (hbase : c.base = QueueView.base name) :
    Api.get q c.path
      = if name = [] then none else some (Api.getTasks q name (Targets.query c.values)) := by
  unfold Api.get
  rw [cut_path hbase, segments_path]
  dsimp only
  by_cases hname : name = []
  · rw [if_pos hname, if_neg (fun hroute => hroute.2.2.2.1 hname)]
  · rw [if_neg hname, if_pos ⟨rfl, rfl, rfl, hname, rfl⟩]

/-- **The server reads the parameters**, so that its answer is a page from the offset on,
unless the offset does not fit in 64 bits. -/
theorem getTasks_values (q : Queues) (name : GoString)
    (hfilter : c.filter = [] ∨ validStatus c.filter = true) :
    Api.getTasks q name (Targets.query c.values)
      = if c.offset < 2 ^ 63 then Api.write (q.page name c.filter c.offset 200)
        else Api.fail .invalid := by
  have hplain : ∀ pair ∈ c.values, Targets.Plain pair.1 ∧ Targets.Plain pair.2 := by
    have hoffset : Targets.Plain (Field.ofInt c.offset) := c.ofInt_offset ▸ plain_decimal _
    unfold values
    simp only [List.forall_mem_cons]
    exact ⟨⟨by decide, hoffset⟩, ⟨by decide, by decide⟩, ⟨by decide, plain_status hfilter⟩,
      fun _ hmem => absurd hmem List.not_mem_nil⟩
  have hne : c.values ≠ [] := List.cons_ne_nil _ _
  have hoffset : Targets.get c.values (str "offset") = Strconv.decimal c.offset.toNat :=
    c.ofInt_offset
  have hlimit : Targets.get c.values (str "limit") = str "200" := rfl
  have hstatus : Targets.get c.values (str "status") = c.filter := rfl
  have hnumber : Api.number c.values (str "offset") 0
      = if c.offset < 2 ^ 63 then some c.offset else none := by
    have hnonneg := c.offset_nonneg
    unfold Api.number
    dsimp only
    rw [hoffset, if_neg (Strconv.decimal_ne_nil _), Strconv.atoi_decimal,
      Int.toNat_of_nonneg hnonneg]
    exact if_congr (by omega) rfl rfl
  have htwo : Api.number c.values (str "limit") 100 = some 200 := by
    unfold Api.number
    dsimp only
    rw [hlimit]
    decide
  unfold Api.getTasks
  dsimp only
  rw [Targets.parseQuery_query hne hplain, hnumber, htwo, hstatus]
  by_cases hrange : c.offset < 2 ^ 63
  · rw [if_pos hrange, if_pos hrange]
  · rw [if_neg hrange, if_neg hrange]

/-- **A page that answers the current path** is the one that `Page` gives. -/
theorem page_of_response {q : Queues} {name : GoString} {response : Response Api.Body}
    {page : TaskPage} (hbase : c.base = QueueView.base name)
    (hfilter : c.filter = [] ∨ validStatus c.filter = true)
    (hget : Api.get q c.path = some response)
    (hrequest : request Api.Body.error response = .ok (.page page)) :
    q.page name c.filter c.offset 200 = .ok page := by
  rw [get_path q hbase] at hget
  split_ifs at hget with hname
  obtain rfl := Option.some.inj hget
  rw [getTasks_values q name hfilter] at hrequest
  split_ifs at hrequest
  · exact Api.page_of_write hrequest
  · have hnone : Except.error Err.invalid = Except.ok page := Api.page_of_write hrequest
    cases hnone

/-- **The window**, at every position of the viewport. The rows that are built are of tasks
of the list and of the page that is asked for; they cover the viewport, in the exact mode
as far as the list goes; and they are no more than fit in the viewport and nine. Each row
has the task that it should, as soon as an answer to the current path has come whose total
is that of the component. -/
theorem window (h : c.OnScreen) :
    (∀ data, ∀ row ∈ c.rows data, 0 ≤ row.index ∧ row.index < c.total
      ∧ c.offset ≤ row.index ∧ row.index < c.offset + 200)
    ∧ (∀ data y, c.scrollTop ≤ y → y ≤ c.scrollTop + c.height →
      c.scaled = true ∨ y < c.total * rowHeight →
      ∃ row ∈ c.rows data, row.top ≤ y ∧ y < row.top + rowHeight)
    ∧ (∀ data, ((c.rows data).length : ℤ) ≤ ⌈c.height / rowHeight⌉ + 9)
    ∧ ∀ (q : Queues) name response page, q.Reachable → c.base = QueueView.base name →
      c.filter = [] ∨ validStatus c.filter = true →
      Api.get q c.path = some response → request Api.Body.error response = .ok (.page page) →
      page.total = c.total →
      ∃ entry, q.queues.lookup name = some entry ∧ ∀ row ∈ c.rows (some page), ∃ task,
        (Queues.matching c.filter entry.tasks)[row.index.toNat]? = some task
          ∧ page.items[(row.index - c.offset).toNat]? = some task ∧ row.task = some task := by
  have hindex : ∀ data, ∀ row ∈ c.rows data, 0 ≤ row.index ∧ row.index < c.total
      ∧ c.offset ≤ row.index ∧ row.index < c.offset + 200 := by
    intro data row hrow
    obtain ⟨index, hfirst, hlast, rfl⟩ := mem_rows.mp hrow
    exact index_mem h hfirst hlast
  refine ⟨hindex, fun data y => covered h data, length_rows_le h,
    fun q name response page hq hbase hfilter hget hrequest htotal => ?_⟩
  have hpage := page_of_response hbase hfilter hget hrequest
  obtain ⟨entry, hentry⟩ := Queues.exists_of_page hpage
  refine ⟨entry, hentry, fun row hrow => ?_⟩
  rw [Queues.page_eq hq.sound hentry hfilter c.offset_nonneg (by decide) le_rfl] at hpage
  obtain rfl := Except.ok.inj hpage
  obtain ⟨hnonneg, hcount, hlow, hhigh⟩ := hindex _ row hrow
  have htasks : row.index.toNat < (Queues.matching c.filter entry.tasks).length := by
    rw [← htotal] at hcount
    dsimp only at hcount
    omega
  obtain ⟨task, htask⟩ : ∃ task,
      (Queues.matching c.filter entry.tasks)[row.index.toNat]? = some task :=
    ⟨_, List.getElem?_eq_getElem htasks⟩
  have hoffset := c.offset_nonneg
  have hitem : (Slices.slice (Queues.matching c.filter entry.tasks) c.offset.toNat
      (200 : ℤ).toNat)[(row.index - c.offset).toNat]? = some task := by
    have hplace : c.offset.toNat + (row.index - c.offset).toNat = row.index.toNat := by omega
    rw [Slices.getElem?_slice, if_pos (by omega), hplace, htask]
  refine ⟨task, htask, hitem, ?_⟩
  obtain ⟨index, _, _, rfl⟩ := mem_rows.mp hrow
  show item _ (index - c.offset) = some task
  unfold item
  rw [if_neg (by change c.offset ≤ index at hlow; omega)]
  exact hitem

/-- A queue of a hundred and sixty tasks. -/
def backlog : List Queues.Call :=
  .create (str "emails") :: List.replicate 160 (.add (str "emails") (str "x") 0)

/-- Its pending tasks, scrolled almost to the end. -/
def pendingEmails : TaskList where
  base := QueueView.base (str "emails")
  filter := str "pending"
  scrollTop := 8400
  height := 480
  total := 160

theorem pendingEmails_offset : pendingEmails.offset = 100 := by
  norm_num [pendingEmails, offset, first, anchor, scaled, maxSpace, rowHeight, overscan, pageSize]

theorem exists_page_backlog :
    ∃ page, (Queues.system.after Queues.new backlog).page (str "emails") (str "pending") 100 200
        = .ok page
      ∧ page.items.length = 60 ∧ page.total = 160 := by
  have hcounts : ((Queues.system.after Queues.new backlog).page (str "emails") (str "pending")
      100 200).map (fun page => (page.items.length, page.total)) = .ok (60, 160) := by
    decide +kernel
  generalize (Queues.system.after Queues.new backlog).page (str "emails") (str "pending") 100 200
    = result at hcounts
  cases result with
  | error err => cases hcounts
  | ok page =>
    obtain ⟨hitems, htotal⟩ := Prod.mk.inj (Except.ok.inj hcounts)
    exact ⟨page, rfl, hitems, htotal⟩

/-- The fourteen rows at the end, from the page of the tasks from the hundredth on. -/
theorem window_emails :
    ∃ page entry, page.items.length = 60 ∧ (pendingEmails.rows (some page)).length = 14
      ∧ (Queues.system.after Queues.new backlog).queues.lookup (str "emails") = some entry
      ∧ ∀ row ∈ pendingEmails.rows (some page), ∃ task,
        (Queues.matching (str "pending") entry.tasks)[row.index.toNat]? = some task
          ∧ page.items[(row.index - pendingEmails.offset).toNat]? = some task
          ∧ row.task = some task := by
  have hscreen : pendingEmails.OnScreen := by
    refine ⟨by decide, ?_, ?_, ?_, ?_⟩
    all_goals norm_num [pendingEmails, space, scaled, maxSpace, rowHeight]
  obtain ⟨page, hpage, hitems, htotal⟩ := exists_page_backlog
  have hresponse := getTasks_values (c := pendingEmails)
    (Queues.system.after Queues.new backlog) (str "emails") (.inr (by decide))
  rw [pendingEmails_offset, if_pos (by decide)] at hresponse
  have hget : Api.get (Queues.system.after Queues.new backlog) pendingEmails.path
      = some { status := 200, json := .ok (.page page) } := by
    rw [get_path _ rfl, if_neg (by decide), hresponse]
    show some (Api.write ((Queues.system.after Queues.new backlog).page (str "emails")
      (str "pending") 100 200)) = _
    rw [hpage]
    rfl
  obtain ⟨entry, hentry, hrows⟩ := (window hscreen).2.2.2 (Queues.system.after Queues.new backlog)
    (str "emails") _ page ⟨backlog, rfl⟩ rfl (.inr (by decide)) hget rfl htotal
  refine ⟨page, entry, hitems, ?_, hentry, hrows⟩
  have hrange : pendingEmails.last - pendingEmails.first = 14 := by
    norm_num [pendingEmails, first, last, anchor, visible, scaled, maxSpace, rowHeight, overscan]
  rw [rows, List.length_map, List.length_range, hrange]
  rfl

end TaskList

end WasmRedis
