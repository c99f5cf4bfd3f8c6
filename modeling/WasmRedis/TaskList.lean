import WasmRedis.Encoding
import WasmRedis.Foundation.Targets
import WasmRedis.Queues

/-!
# The list of the tasks

`TaskList` shows the tasks of a queue in a viewport that scrolls. It builds the rows near
the viewport and no others, and asks the server for the page in which these rows are.

Up to a height of `maxSpace` the list is as high as its rows, and a row is where it would
be if all of them were built. A longer list is scaled: the space it takes is `maxSpace`,
the row at the top of the viewport is found by proportion, and the rows are placed from the
top of the viewport on. The arithmetic is that of the rational numbers.
-/

namespace WasmRedis

open GoString

/-- The component: its props, and its state. -/
structure TaskList where
  /-- The path of the queue. -/
  base : GoString
  /-- The status asked for; empty for all. -/
  filter : GoString
  /-- How far the viewport is scrolled. -/
  scrollTop : ℚ
  /-- The height of the viewport. -/
  height : ℚ
  /-- The number of tasks. -/
  total : ℤ

/-- A row that is rendered. -/
structure TaskRow where
  /-- The place of its task in the list. -/
  index : ℤ
  /-- Where its box starts. -/
  top : ℚ
  /-- Its task, once it is there. -/
  task : Option Task
  deriving DecidableEq

namespace TaskList

/-- `ROW_HEIGHT`. -/
def rowHeight : ℚ := 56

/-- `PAGE_SIZE`. -/
def pageSize : ℤ := 100

/-- `OVERSCAN`. -/
def overscan : ℤ := 4

/-- `MAX_SPACE`. -/
def maxSpace : ℚ := 30000000

/-- `Math.round(x)`. -/
def round (x : ℚ) : ℤ := ⌊x + 1 / 2⌋

/-- `items[i]`; `none` is `undefined`. -/
def item (items : List Task) (i : ℤ) : Option Task := if i < 0 then none else items[i.toNat]?

variable (c : TaskList)

/-! ## The window -/

/-- `scaled`. -/
def scaled : Bool := decide (c.total * rowHeight > maxSpace)

/-- `space`. -/
def space : ℚ := if c.scaled then maxSpace else c.total * rowHeight

/-- `visible`. -/
def visible : ℤ := ⌈c.height / rowHeight⌉ + 1

/-- `ratio`. -/
def ratio : ℚ := min 1 (max 0 (c.scrollTop / max 1 (c.space - c.height)))

/-- `anchor`. -/
def anchor : ℤ :=
  if c.scaled then round (c.ratio * max 0 (c.total - c.visible)) else ⌊c.scrollTop / rowHeight⌋

/-- `first`. -/
def first : ℤ := max 0 (c.anchor - overscan)

/-- `last`. -/
def last : ℤ := min c.total (c.anchor + c.visible + overscan)

/-- `origin`. -/
def origin : ℚ :=
  if c.scaled then c.scrollTop - (c.anchor - c.first) * rowHeight else c.first * rowHeight

/-- `offset`. -/
def offset : ℤ := ⌊(c.first : ℚ) / pageSize⌋ * pageSize

/-- `path`. -/
def path : GoString :=
  c.base ++ str "/tasks?offset=" ++ Field.ofInt c.offset ++ str "&limit=200&status=" ++ c.filter

/-! ## The rows -/

/-- Where the box of a row starts. -/
def top (index : ℤ) : ℚ := c.origin + (index - c.first) * rowHeight

/-- The row of an index. -/
def row (data : Option TaskPage) (index : ℤ) : TaskRow where
  index := index
  top := c.top index
  task := data.bind (fun data => item data.items (index - c.offset))

/-- `rows`, what the loop builds. -/
def rows (data : Option TaskPage) : List TaskRow :=
  (List.range (c.last - c.first).toNat).map (fun k : ℕ => c.row data (c.first + k))

/-! ## Handlers -/

/-- `maximum`: the lowest scroll position. -/
def maximum (total : ℤ) (height : ℚ) : ℚ := max 0 (min (total * rowHeight) maxSpace - height)

/-- The viewport is scrolled. -/
def onScroll (scrollTop : ℚ) : TaskList := { c with scrollTop := scrollTop }

/-- The viewport has another height. -/
def onResize (height : ℚ) : TaskList := { c with height := height }

/-- The effect on the data and the height. -/
def onData : Option TaskPage → TaskList
  | none => c
  | some data =>
    let maximum := maximum data.total c.height
    { c with
      total := data.total
      scrollTop := if c.scrollTop > maximum then maximum else c.scrollTop }

end TaskList

/-- `base`, of the view of a queue. -/
def QueueView.base (name : GoString) : GoString :=
  str "/api/queues/" ++ Targets.encodeURIComponent name

end WasmRedis
