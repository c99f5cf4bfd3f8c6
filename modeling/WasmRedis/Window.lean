import WasmRedis.TaskList

/-!
# The window of the list

Everything about the window follows from what the anchor is: the row whose box the top
edge of the viewport is in (`anchor_top`), in both modes. In the exact mode this is so
because rows are at multiples of their height, in the scaled mode because the rows are
placed from the anchor on. The rows that are built go from `overscan` rows above the
anchor to `overscan` rows below the last one that the viewport can reach, as far as there
are tasks.

In the exact mode the last row ends where the list does. In the scaled mode the anchor is
never beyond `total - visible`, and `visible` counts one row more than fits, for the part
of a row that is cut at the top. There the anchor is not cut, so that at the lowest
position the last row is the one too many: it starts below the viewport (`last_below`).
-/

namespace WasmRedis

open GoString

namespace TaskList

variable {c : TaskList}

/-- A number of tasks, a height of the viewport, and a position it can be scrolled to. -/
structure OnScreen (c : TaskList) : Prop where
  /-- There are some tasks, or none. -/
  total_nonneg : 0 ≤ c.total
  /-- The viewport is at least so high. -/
  height_ge : 320 ≤ c.height
  /-- And at most so. -/
  height_le : c.height ≤ 640
  /-- It is not scrolled above the list. -/
  scrollTop_nonneg : 0 ≤ c.scrollTop
  /-- Nor below it. -/
  scrollTop_le : c.scrollTop ≤ max 0 (c.space - c.height)

theorem scaled_iff : c.scaled = true ↔ maxSpace < c.total * rowHeight := by
  unfold scaled
  rw [decide_eq_true_iff]

theorem space_eq (c : TaskList) : c.space = min (c.total * rowHeight) maxSpace := by
  unfold space
  split_ifs with hscaled
  · rw [scaled_iff] at hscaled
    exact (min_eq_right hscaled.le).symm
  · rw [scaled_iff, not_lt] at hscaled
    exact (min_eq_left hscaled).symm

/-! ## Positions -/

/-- The viewport is scrolled to a position that there is. -/
theorem OnScreen.onScroll (h : c.OnScreen) {scrollTop : ℚ} (hnonneg : 0 ≤ scrollTop)
    (hle : scrollTop ≤ max 0 (c.space - c.height)) : (c.onScroll scrollTop).OnScreen :=
  ⟨h.total_nonneg, h.height_ge, h.height_le, hnonneg, hle⟩

/-- **The effect** puts the viewport where there is something to see, whatever the height
and the number of tasks have become. -/
theorem onData_onScreen {data : TaskPage} (htotal : 0 ≤ data.total) (hlow : 320 ≤ c.height)
    (hhigh : c.height ≤ 640) (hscroll : 0 ≤ c.scrollTop) : (c.onData (some data)).OnScreen where
  total_nonneg := htotal
  height_ge := hlow
  height_le := hhigh
  scrollTop_nonneg := by
    unfold onData
    dsimp only
    split_ifs
    · exact le_max_left _ _
    · exact hscroll
  scrollTop_le := by
    rw [space_eq]
    unfold onData
    dsimp only
    split_ifs with habove
    · exact le_rfl
    · exact not_lt.mp habove

/-- So it does after a resize, which alone may leave the viewport below the list. -/
theorem OnScreen.onResize (h : c.OnScreen) {height : ℚ} (hlow : 320 ≤ height)
    (hhigh : height ≤ 640) {data : TaskPage} (htotal : 0 ≤ data.total) :
    ((c.onResize height).onData (some data)).OnScreen :=
  onData_onScreen htotal hlow hhigh h.scrollTop_nonneg

/-! ## Rows -/

theorem mem_rows {data : Option TaskPage} {row : TaskRow} :
    row ∈ c.rows data ↔ ∃ index, c.first ≤ index ∧ index < c.last ∧ row = c.row data index := by
  unfold rows
  rw [List.mem_map]
  constructor
  · rintro ⟨k, hk, rfl⟩
    rw [List.mem_range] at hk
    exact ⟨c.first + k, by omega, by omega, rfl⟩
  · rintro ⟨index, hfirst, hlast, rfl⟩
    refine ⟨(index - c.first).toNat, List.mem_range.mpr (by omega), ?_⟩
    rw [Int.toNat_of_nonneg (by omega), add_sub_cancel]

theorem top_eq (index : ℤ) : c.top index = c.top c.anchor + (index - c.anchor) * rowHeight := by
  unfold top
  ring

/-- In the exact mode a row is where it would be if all of them were built. -/
theorem top_exact (h : c.scaled = false) (index : ℤ) : c.top index = index * rowHeight := by
  unfold top origin
  rw [h, if_neg Bool.false_ne_true]
  ring

/-- In the scaled mode the rows are placed from the anchor on. -/
theorem top_anchor_scaled (h : c.scaled = true) : c.top c.anchor = c.scrollTop := by
  unfold top origin
  rw [if_pos h]
  ring

/-! ## The anchor -/

/-- The viewport reaches less than `visible` rows below the anchor's. -/
theorem height_lt_visible (c : TaskList) : c.height + rowHeight ≤ c.visible * rowHeight := by
  have hceil : c.height / rowHeight ≤ ⌈c.height / rowHeight⌉ := Int.le_ceil _
  rw [div_le_iff₀ (by norm_num [rowHeight])] at hceil
  unfold visible
  push_cast
  linarith

theorem visible_le (h : c.height ≤ 640) : c.visible ≤ 13 := by
  have hceil : ⌈c.height / rowHeight⌉ ≤ 12 := by
    rw [Int.ceil_le, div_le_iff₀ (by norm_num [rowHeight])]
    norm_num [rowHeight]
    linarith
  unfold visible
  omega

/-- A list that is scaled has more rows than are built. -/
theorem visible_le_total (h : c.OnScreen) (hscaled : c.scaled = true) : c.visible ≤ c.total := by
  have hvisible := visible_le h.height_le
  have htotal : (13 : ℚ) < c.total := by
    rw [scaled_iff] at hscaled
    norm_num [maxSpace, rowHeight] at hscaled
    linarith
  have hthirteen : 13 < c.total := by exact_mod_cast htotal
  omega

theorem ratio_mem (c : TaskList) : 0 ≤ c.ratio ∧ c.ratio ≤ 1 :=
  ⟨le_min zero_le_one (le_max_left _ _), min_le_left _ _⟩

/-- What is rounded stays between whole numbers that it is between. -/
theorem round_mem {x : ℚ} {a b : ℤ} (ha : a ≤ x) (hb : x ≤ b) : a ≤ round x ∧ round x ≤ b := by
  unfold round
  constructor
  · rw [Int.le_floor]
    linarith
  · rw [← Int.lt_add_one_iff, Int.floor_lt]
    push_cast
    linarith

/-- The anchor of a scaled list leaves `visible` rows from itself on. -/
theorem anchor_scaled (h : c.OnScreen) (hscaled : c.scaled = true) :
    0 ≤ c.anchor ∧ c.anchor + c.visible ≤ c.total := by
  have hroom := visible_le_total h hscaled
  have hmax : max 0 (c.total - c.visible) = c.total - c.visible := max_eq_right (by omega)
  have hroom' : (0 : ℚ) ≤ ((c.total - c.visible : ℤ) : ℚ) := by exact_mod_cast (by omega)
  obtain ⟨hnonneg, hone⟩ := c.ratio_mem
  have hround : 0 ≤ round (c.ratio * ((c.total - c.visible : ℤ) : ℚ))
      ∧ round (c.ratio * ((c.total - c.visible : ℤ) : ℚ)) ≤ c.total - c.visible := by
    refine round_mem ?_ (mul_le_of_le_one_left hroom' hone)
    exact_mod_cast mul_nonneg hnonneg hroom'
  unfold anchor
  rw [if_pos hscaled, hmax]
  omega

theorem anchor_nonneg (h : c.OnScreen) : 0 ≤ c.anchor := by
  cases hscaled : c.scaled with
  | true => exact (anchor_scaled h hscaled).1
  | false =>
    unfold anchor
    rw [if_neg (by simp [hscaled]), Int.floor_nonneg]
    exact div_nonneg h.scrollTop_nonneg (by norm_num [rowHeight])

/-- **The anchor** is the row that the top edge of the viewport is in. -/
theorem anchor_top (c : TaskList) :
    c.top c.anchor ≤ c.scrollTop ∧ c.scrollTop < c.top c.anchor + rowHeight := by
  have hpos : (0 : ℚ) < rowHeight := by norm_num [rowHeight]
  cases hscaled : c.scaled with
  | true =>
    rw [top_anchor_scaled hscaled]
    exact ⟨le_rfl, lt_add_of_pos_right _ hpos⟩
  | false =>
    have hanchor : c.anchor = ⌊c.scrollTop / rowHeight⌋ := if_neg (by simp [hscaled])
    have hlow := Int.floor_le (c.scrollTop / rowHeight)
    have hhigh := Int.lt_floor_add_one (c.scrollTop / rowHeight)
    rw [le_div_iff₀ hpos] at hlow
    rw [div_lt_iff₀ hpos] at hhigh
    rw [top_exact hscaled, hanchor]
    constructor
    · exact hlow
    · linarith

/-! ## What is built -/

theorem first_le_anchor (h : c.OnScreen) : c.first ≤ c.anchor := by
  have hanchor := anchor_nonneg h
  unfold first overscan
  omega

/-- **The page**: the rows that are built are among those asked for. -/
theorem index_mem (h : c.OnScreen) {index : ℤ} (hfirst : c.first ≤ index) (hlast : index < c.last) :
    0 ≤ index ∧ index < c.total ∧ c.offset ≤ index ∧ index < c.offset + 200 := by
  have hvisible := visible_le h.height_le
  have hfloor := Int.floor_le ((c.first : ℚ) / pageSize)
  have hfloor' := Int.lt_floor_add_one ((c.first : ℚ) / pageSize)
  have hpos : (0 : ℚ) < pageSize := by norm_num [pageSize]
  rw [le_div_iff₀ hpos] at hfloor
  rw [div_lt_iff₀ hpos] at hfloor'
  have hlow : c.offset ≤ c.first := by
    unfold offset
    exact_mod_cast hfloor
  have hhigh : c.first < c.offset + pageSize := by
    unfold offset
    rw [add_mul, one_mul] at hfloor'
    exact_mod_cast hfloor'
  unfold first overscan at hfirst hlow hhigh
  unfold last overscan at hlast
  unfold pageSize at hhigh
  omega

/-- **The viewport is covered**: in the scaled mode everywhere, in the exact mode as far
as the list goes. -/
theorem covered (h : c.OnScreen) (data : Option TaskPage) {y : ℚ} (htop : c.scrollTop ≤ y)
    (hbottom : y ≤ c.scrollTop + c.height)
    (hlist : c.scaled = true ∨ y < c.total * rowHeight) :
    ∃ row ∈ c.rows data, row.top ≤ y ∧ y < row.top + rowHeight := by
  have hpos : (0 : ℚ) < rowHeight := by norm_num [rowHeight]
  obtain ⟨hanchor, hanchor'⟩ := c.anchor_top
  -- the row is as many rows below the anchor as fit in between
  obtain ⟨n, hn⟩ : ∃ n : ℤ, n = ⌊(y - c.top c.anchor) / rowHeight⌋ := ⟨_, rfl⟩
  have hlow := Int.floor_le ((y - c.top c.anchor) / rowHeight)
  have hhigh := Int.lt_floor_add_one ((y - c.top c.anchor) / rowHeight)
  rw [← hn, le_div_iff₀ hpos] at hlow
  rw [← hn, div_lt_iff₀ hpos] at hhigh
  have hnonneg : 0 ≤ n := by
    rw [hn, Int.floor_nonneg]
    exact div_nonneg (by linarith) hpos.le
  have hvisible : n < c.visible := by
    have hreach := c.height_lt_visible
    have hlt : (n : ℚ) * rowHeight < c.visible * rowHeight := by linarith
    exact_mod_cast lt_of_mul_lt_mul_right hlt hpos.le
  have htotal : c.anchor + n < c.total := by
    cases hscaled : c.scaled with
    | true =>
      have hroom := (anchor_scaled h hscaled).2
      omega
    | false =>
      have hend : y < c.total * rowHeight := hlist.resolve_left (by simp [hscaled])
      rw [top_exact hscaled] at hlow
      have hlt : ((c.anchor + n : ℤ) : ℚ) * rowHeight < c.total * rowHeight := by
        push_cast
        linarith
      exact_mod_cast lt_of_mul_lt_mul_right hlt hpos.le
  have hfirst := first_le_anchor h
  refine ⟨c.row data (c.anchor + n), mem_rows.mpr ⟨_, by omega, ?_, rfl⟩, ?_⟩
  · unfold last overscan
    omega
  · show c.top (c.anchor + n) ≤ y ∧ y < c.top (c.anchor + n) + rowHeight
    rw [top_eq]
    push_cast
    constructor
    · linarith
    · linarith

/-- The rows that are built are those of the viewport and `overscan` on each side. -/
theorem length_rows_le (h : c.OnScreen) (data : Option TaskPage) :
    ((c.rows data).length : ℤ) ≤ ⌈c.height / rowHeight⌉ + 9 := by
  have hceil : 0 ≤ ⌈c.height / rowHeight⌉ :=
    Int.ceil_nonneg (div_nonneg (by linarith [h.height_ge]) (by norm_num [rowHeight]))
  unfold rows
  rw [List.length_map, List.length_range]
  unfold last first visible overscan
  omega

/-! ## The last row -/

/-- The row of the last task is built, and its box is inside the viewport. -/
def LastVisible (c : TaskList) (data : Option TaskPage) : Prop :=
  ∃ row ∈ c.rows data, row.index = c.total - 1 ∧ c.scrollTop ≤ row.top
    ∧ row.top + rowHeight ≤ c.scrollTop + c.height

/-- The component at the lowest position that it keeps. -/
def lowest (base filter : GoString) (total : ℤ) (height : ℚ) : TaskList where
  base := base
  filter := filter
  scrollTop := maximum total height
  height := height
  total := total

section Lowest

variable {base filter : GoString} {total : ℤ} {height : ℚ}

theorem lowest_onScreen (htotal : 1 ≤ total) (hlow : 320 ≤ height) (hhigh : height ≤ 640) :
    (lowest base filter total height).OnScreen where
  total_nonneg := by
    show 0 ≤ total
    omega
  height_ge := hlow
  height_le := hhigh
  scrollTop_nonneg := le_max_left _ _
  scrollTop_le := by
    rw [space_eq]
    exact le_rfl

/-- In the exact mode, the row in which another starts is that one. -/
theorem index_of_top {index place : ℤ} (hscaled : c.scaled = false)
    (htop : c.top index ≤ place * rowHeight) (hend : place * rowHeight < c.top index + rowHeight) :
    index = place := by
  rw [top_exact hscaled] at htop hend
  norm_num [rowHeight] at htop hend
  have hlt : place < index + 1 := by
    have hcast : (place : ℚ) < (index + 1 : ℤ) := by
      push_cast
      linarith
    exact_mod_cast hcast
  omega

/-- **A list in the exact mode ends with its last row**, at the lower edge of the viewport
or above. -/
theorem last_inside (htotal : 1 ≤ total) (hlow : 320 ≤ height) (hhigh : height ≤ 640)
    (hexact : total * rowHeight ≤ maxSpace) (data : Option TaskPage) :
    (lowest base filter total height).LastVisible data := by
  have h : (lowest base filter total height).OnScreen := lowest_onScreen htotal hlow hhigh
  have hscaled : (lowest base filter total height).scaled = false := by
    rw [← Bool.not_eq_true, scaled_iff, not_lt]
    exact hexact
  have hscroll : (lowest base filter total height).scrollTop
      = max 0 (total * rowHeight - height) := by
    show max 0 (min _ _ - height) = _
    rw [min_eq_left hexact]
  have hone : (1 : ℚ) ≤ total := by exact_mod_cast htotal
  have hlast : ((total - 1 : ℤ) : ℚ) = total - 1 := by push_cast; rfl
  -- the row at the place where the last one starts
  have hstart : (0 : ℚ) ≤ (total - 1) * rowHeight := by
    norm_num [rowHeight]
    exact hone
  have hinside : (lowest base filter total height).scrollTop ≤ (total - 1) * rowHeight := by
    rw [hscroll]
    refine max_le hstart ?_
    norm_num [rowHeight]
    linarith
  have hbottom : total * rowHeight ≤ (lowest base filter total height).scrollTop + height := by
    have hle := le_max_right 0 (total * rowHeight - height)
    rw [hscroll]
    linarith
  obtain ⟨row, hrow, htop, htop'⟩ := covered h data hinside
    (by show _ ≤ _ + height; norm_num [rowHeight] at hbottom ⊢; linarith)
    (.inr (by show _ < (total : ℚ) * rowHeight; norm_num [rowHeight]))
  obtain ⟨index, _, _, rfl⟩ := mem_rows.mp hrow
  have hindex : index = total - 1 := by
    refine index_of_top hscaled ?_ ?_
    · rw [hlast]
      exact htop
    · rw [hlast]
      exact htop'
  have heq : (lowest base filter total height).top index = (total - 1) * rowHeight := by
    rw [top_exact hscaled, hindex]
    push_cast
    rfl
  refine ⟨_, hrow, hindex, ?_, ?_⟩
  · show _ ≤ (lowest base filter total height).top index
    rw [heq]
    exact hinside
  · show (lowest base filter total height).top index + _ ≤ _
    rw [heq]
    refine le_trans ?_ hbottom
    norm_num [rowHeight]
    linarith

/-- **A list that is scaled does not**: at the lowest position its last row starts at the
lower edge of the viewport or below. -/
theorem last_below (htotal : 1 ≤ total) (hlow : 320 ≤ height) (hhigh : height ≤ 640)
    (hlong : maxSpace < total * rowHeight) :
    (lowest base filter total height).scrollTop + height
      ≤ (lowest base filter total height).top (total - 1) := by
  obtain ⟨c, hc⟩ : ∃ c, c = lowest base filter total height := ⟨_, rfl⟩
  have h : c.OnScreen := hc ▸ lowest_onScreen htotal hlow hhigh
  have hheight : c.height = height := by rw [hc]; rfl
  have hcount : c.total = total := by rw [hc]; rfl
  have hscaled : c.scaled = true := by
    rw [scaled_iff, hcount]
    exact hlong
  have hspace : c.space = maxSpace := if_pos hscaled
  have hscroll : c.scrollTop = maxSpace - height := by
    rw [hc]
    show max 0 (min _ _ - height) = _
    rw [min_eq_right hlong.le]
    refine max_eq_right ?_
    norm_num [maxSpace]
    linarith
  have hratio : c.ratio = 1 := by
    have hpos : (1 : ℚ) ≤ maxSpace - height := by
      norm_num [maxSpace]
      linarith
    unfold ratio
    rw [hspace, hscroll, hheight, max_eq_right hpos, div_self (by linarith), max_eq_right
      zero_le_one, min_self]
  have hroom := visible_le_total h hscaled
  have hanchor : c.anchor = c.total - c.visible := by
    unfold anchor
    rw [if_pos hscaled, hratio, one_mul, max_eq_right (by omega)]
    have hround := round_mem (x := ((c.total - c.visible : ℤ) : ℚ)) le_rfl le_rfl
    omega
  have hceil : c.height / rowHeight ≤ ⌈c.height / rowHeight⌉ := Int.le_ceil _
  rw [div_le_iff₀ (by norm_num [rowHeight])] at hceil
  rw [← hc, ← hcount, ← hheight, top_eq, top_anchor_scaled hscaled, hanchor]
  unfold visible
  push_cast
  linarith

/-- A list that is scaled hides its last row at the lowest position. -/
theorem not_lastVisible (htotal : 1 ≤ total) (hlow : 320 ≤ height) (hhigh : height ≤ 640)
    (hlong : maxSpace < total * rowHeight) (data : Option TaskPage) :
    ¬ (lowest base filter total height).LastVisible data := by
  rintro ⟨row, hrow, hindex, _, hbottom⟩
  obtain ⟨index, _, _, rfl⟩ := mem_rows.mp hrow
  have hbelow : (lowest base filter total height).scrollTop + height
      ≤ (lowest base filter total height).top (total - 1) := last_below htotal hlow hhigh hlong
  have heq : index = total - 1 := hindex
  have hend : (lowest base filter total height).top index + rowHeight
      ≤ (lowest base filter total height).scrollTop + height := hbottom
  rw [heq] at hend
  norm_num [rowHeight] at hend
  linarith

/-- **The last task can be seen** at the lowest position if and only if the list is not
scaled. -/
theorem last_task_visible_iff (base filter : GoString) (htotal : 1 ≤ total) (hlow : 320 ≤ height)
    (hhigh : height ≤ 640) (data : Option TaskPage) :
    (lowest base filter total height).LastVisible data ↔ total * rowHeight ≤ maxSpace := by
  constructor
  · intro hvisible
    by_contra hlong
    exact not_lastVisible htotal hlow hhigh (not_le.mp hlong) data hvisible
  · exact fun hexact => last_inside htotal hlow hhigh hexact data

/-- The last of a thousand tasks. -/
theorem last_task_visible_thousand :
    (lowest (QueueView.base (str "emails")) [] 1000 480).LastVisible none :=
  (last_task_visible_iff _ _ (by norm_num) (by norm_num) (by norm_num) none).mpr
    (by norm_num [rowHeight, maxSpace])

/-- The last task of the shortest list that is scaled cannot be seen. -/
theorem last_task_hidden :
    ¬ (lowest (QueueView.base (str "emails")) [] 535715 480).LastVisible none :=
  not_lastVisible (by norm_num) (by norm_num) (by norm_num) (by norm_num [rowHeight, maxSpace]) none

end Lowest

end TaskList

end WasmRedis
