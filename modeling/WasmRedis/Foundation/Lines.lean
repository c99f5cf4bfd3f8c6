import Mathlib

/-!
# Files of lines

A file of lines is a sequence of lines, each ended by a separator, and possibly
a torn line after the last separator. A line is a list in which the separator
does not occur – this is what `Line` carries – so the lines of a file are
determined by its content: `exists_join` reads them, `splitOn_join` says that
splitting at the separator finds them, and `lastIndex_join` that the last
separator ends the last of them.

`take_join` is about a write that was cut: what is left of a sequence of lines
is a number of whole lines and a torn one, and a line is whole exactly when it
fits, separator included, in what was left.
-/

/-- A line: the separator does not occur in it. -/
structure Line {α : Type*} (sep : α) where
  /-- The line, without the separator that ends it. -/
  text : List α
  /-- It is one line. -/
  single : sep ∉ text

namespace Lines

variable {α : Type*} {sep : α}

/-- The line with nothing in it. -/
def blank : Line sep := ⟨[], List.not_mem_nil⟩

/-- The content of a file of lines. -/
def join (lines : List (Line sep)) : List α := lines.flatMap (fun l => l.text ++ [sep])

@[simp] theorem join_nil : join ([] : List (Line sep)) = [] := rfl

@[simp] theorem join_cons (l : Line sep) (lines : List (Line sep)) :
    join (l :: lines) = l.text ++ sep :: join lines := by
  show (l.text ++ [sep]) ++ join lines = _
  rw [List.append_assoc]
  rfl

theorem join_append (lines more : List (Line sep)) :
    join (lines ++ more) = join lines ++ join more :=
  List.flatMap_append

/-- **Every content is that of some lines and a torn one.** -/
theorem exists_join (s : List α) :
    ∃ (lines : List (Line sep)) (tail : Line sep), s = join lines ++ tail.text := by
  classical
  induction s with
  | nil => exact ⟨[], blank, rfl⟩
  | cons a s ih =>
    obtain ⟨lines, tail, rfl⟩ := ih
    by_cases ha : a = sep
    · exact ⟨blank :: lines, tail, by rw [ha, join_cons]; rfl⟩
    · -- `a` starts the first line, which may be the torn one
      have hcons : ∀ l : Line sep, sep ∉ a :: l.text := fun l hl =>
        (List.mem_cons.mp hl).elim (fun h => ha h.symm) l.single
      cases lines with
      | nil => exact ⟨[], ⟨a :: tail.text, hcons tail⟩, rfl⟩
      | cons l lines =>
        exact ⟨⟨a :: l.text, hcons l⟩ :: lines, tail, by rw [join_cons, join_cons]; rfl⟩

/-- **Splitting at the separator finds the lines**, and the torn one last. -/
theorem splitOn_join [DecidableEq α] (lines : List (Line sep)) (tail : Line sep) :
    (join lines ++ tail.text).splitOn sep = lines.map (·.text) ++ [tail.text] := by
  induction lines with
  | nil => exact List.splitOn_eq_singleton tail.single
  | cons l lines ih =>
    rw [join_cons, List.append_assoc, List.cons_append,
      List.splitOn_append_cons_self_of_not_mem l.single, ih]
    rfl

/-! ## The last separator -/

/-- The last index of an element, and `-1` if there is none. -/
def lastIndex [DecidableEq α] (a : α) : List α → ℤ
  | [] => -1
  | b :: s =>
    if 0 ≤ lastIndex a s then lastIndex a s + 1
    else if b = a then 0 else -1

theorem lastIndex_of_not_mem [DecidableEq α] {a : α} {s : List α} (h : a ∉ s) :
    lastIndex a s = -1 := by
  induction s with
  | nil => rfl
  | cons b s ih =>
    obtain ⟨hb, hs⟩ := not_or.mp (mt List.mem_cons.mpr h)
    unfold lastIndex
    rw [ih hs, if_neg (by decide), if_neg (Ne.symm hb)]

/-- An element that does not occur again is at the last index. -/
theorem lastIndex_append_cons [DecidableEq α] {a : α} (s : List α) {t : List α} (h : a ∉ t) :
    lastIndex a (s ++ a :: t) = s.length := by
  induction s with
  | nil =>
    show lastIndex a (a :: t) = 0
    unfold lastIndex
    rw [lastIndex_of_not_mem h, if_neg (by decide), if_pos rfl]
  | cons b s ih =>
    show lastIndex a (b :: (s ++ a :: t)) = _
    unfold lastIndex
    rw [ih, if_pos (Int.natCast_nonneg _), List.length_cons, Nat.cast_succ]

/-- **The last separator ends the last whole line.** -/
theorem lastIndex_join [DecidableEq α] (lines : List (Line sep)) (tail : Line sep) :
    lastIndex sep (join lines ++ tail.text) + 1 = (join lines).length := by
  obtain rfl | ⟨lines, l, rfl⟩ := List.eq_nil_or_concat' lines
  · rw [join_nil, List.nil_append, lastIndex_of_not_mem tail.single]
    rfl
  · have hsplit : join (lines ++ [l]) = (join lines ++ l.text) ++ [sep] := by
      rw [join_append, join_cons, join_nil, List.append_assoc]
    rw [hsplit, List.append_assoc, List.singleton_append, lastIndex_append_cons _ tail.single]
    simp only [List.length_append, List.length_singleton, Nat.cast_add, Nat.cast_one]

/-- The content ends where a line does. -/
def Ended (sep : α) (s : List α) : Prop := s = [] ∨ s.getLast? = some sep

instance [DecidableEq α] (s : List α) : Decidable (Ended sep s) :=
  inferInstanceAs (Decidable (_ ∨ _))

/-- The content ends where a line does exactly when no line is torn. -/
theorem ended_join (lines : List (Line sep)) (tail : Line sep) :
    Ended sep (join lines ++ tail.text) ↔ tail.text = [] := by
  constructor
  · rintro (h | h)
    · exact (List.append_eq_nil_iff.mp h).2
    · by_contra hne
      rw [List.getLast?_append_of_ne_nil _ hne] at h
      exact tail.single (List.mem_of_getLast? h)
  · intro h
    rw [h, List.append_nil]
    obtain rfl | ⟨lines, l, rfl⟩ := List.eq_nil_or_concat' lines
    · exact .inl rfl
    · refine .inr ?_
      rw [join_append, join_cons, join_nil, ← List.append_assoc, List.getLast?_concat]

/-! ## A write that was cut -/

/-- **What is left of lines that were cut**: whole lines, and a torn one. The
`i`-th line is whole exactly when it fits in what is left, with its separator
and the lines before it. -/
theorem take_join (lines : List (Line sep)) (k : ℕ) :
    ∃ (n : ℕ) (tail : Line sep), n ≤ lines.length
      ∧ (join lines).take k = join (lines.take n) ++ tail.text
      ∧ ∀ i < lines.length, i < n ↔ (join (lines.take (i + 1))).length ≤ k := by
  induction lines generalizing k with
  | nil => exact ⟨0, blank, le_rfl, List.take_nil, fun i hi => absurd hi (Nat.not_lt_zero i)⟩
  | cons l lines ih =>
    have hlen : ∀ i, (join ((l :: lines).take (i + 1))).length
        = l.text.length + 1 + (join (lines.take i)).length := by
      intro i
      rw [List.take_succ_cons, join_cons, List.length_append, List.length_cons]
      omega
    by_cases hk : l.text.length + 1 ≤ k
    · -- the first line is whole, and the cut falls in the others
      obtain ⟨n, tail, hn, htake, hwhole⟩ := ih (k - (l.text.length + 1))
      refine ⟨n + 1, tail, Nat.succ_le_succ hn, ?_, fun i hi => ?_⟩
      · have hcut : (l.text ++ [sep]).length = l.text.length + 1 := List.length_append
        show ((l.text ++ [sep]) ++ join lines).take k = ((l.text ++ [sep]) ++ join _) ++ _
        rw [List.take_append, List.take_of_length_le (by omega), hcut, htake]
        exact (List.append_assoc _ _ _).symm
      · rw [hlen]
        cases i with
        | zero =>
          rw [List.take_zero, join_nil, List.length_nil]
          omega
        | succ i =>
          have hi' := hwhole i (Nat.lt_of_succ_lt_succ hi)
          omega
    · -- the cut falls in the first line
      refine ⟨0, ⟨l.text.take k, fun h => l.single (List.mem_of_mem_take h)⟩, Nat.zero_le _, ?_,
        fun i _ => ?_⟩
      · rw [join_cons, List.take_append_of_le_length (by omega)]
        rfl
      · rw [hlen]
        omega

end Lines
