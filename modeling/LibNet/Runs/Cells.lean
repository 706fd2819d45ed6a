import Mathlib

/-!
# Windows of a block of memory cells

A block is a function from positions to cells, so that reads and writes past
its size can still be talked about.  `memcpy` overwrites a stretch at the
beginning of a block, and a read of `count` cells is a window of it.
-/

namespace LibNet.Runs

variable {Cell : Type}

/-- The `count` cells from position `start` on. -/
def window (cells : Nat → Cell) (start count : Nat) : List Cell :=
  (List.range count).map fun offset => cells (start + offset)

/-- `memcpy(block, source, count)`. -/
def memcpy (block source : Nat → Cell) (count : Nat) : Nat → Cell :=
  fun position => if position < count then source position else block position

/-- A list laid out from position 0 on, followed by `rest`. -/
def layout (cells : List Cell) (rest : Nat → Cell) : Nat → Cell :=
  fun position => (cells[position]?).getD (rest position)

/-- `cells` written to the block from position `start` on. -/
def store (block : Nat → Cell) (start : Nat) (cells : List Cell) : Nat → Cell :=
  fun position =>
    if start ≤ position then (cells[position - start]?).getD (block position)
    else block position

@[simp] theorem length_window (cells : Nat → Cell) (start count : Nat) :
    (window cells start count).length = count := by
  simp [window]

/-- A window is read in two pieces just as well. -/
theorem window_add (cells : Nat → Cell) (start first second : Nat) :
    window cells start (first + second) =
      window cells start first ++ window cells (start + first) second := by
  unfold window
  rw [List.range_add, List.map_append, List.map_map]
  simp only [Function.comp_def, Nat.add_assoc]

/-- The beginnings of a window are the shorter windows. -/
theorem window_take (cells : Nat → Cell) (start : Nat) {count total : Nat}
    (fits : count ≤ total) : (window cells start total).take count = window cells start count := by
  rw [← Nat.add_sub_cancel' fits, window_add]
  exact List.take_left' (length_window _ _ _)

/-- A window depends only on the cells it covers. -/
theorem window_congr {cells others : Nat → Cell} {start count : Nat}
    (agree : ∀ offset, offset < count → cells (start + offset) = others (start + offset)) :
    window cells start count = window others start count := by
  unfold window
  apply List.map_congr_left
  intro offset member
  exact agree offset (List.mem_range.mp member)

/-- What was copied is what is read back, whatever was there before. -/
theorem window_memcpy (block source : Nat → Cell) (count : Nat) :
    window (memcpy block source count) 0 count = window source 0 count := by
  apply window_congr
  intro offset below
  simp [memcpy, below]

theorem getElem?_window (cells : Nat → Cell) (start count position : Nat) :
    (window cells start count)[position]? =
      if position < count then some (cells (start + position)) else none := by
  unfold window
  rw [List.getElem?_map]
  split
  · next below => rw [List.getElem?_range below]; rfl
  · next above => rw [List.getElem?_eq_none (by simpa using above)]; rfl

/-- Reading the first cells of a laid out list takes them from the list. -/
theorem window_layout (cells : List Cell) (rest : Nat → Cell) {count : Nat}
    (fits : count ≤ cells.length) :
    window (layout cells rest) 0 count = cells.take count := by
  apply List.ext_getElem?
  intro position
  rw [getElem?_window, List.getElem?_take]
  split
  · next below =>
      have inside : position < cells.length := Nat.lt_of_lt_of_le below fits
      simp [layout, List.getElem?_eq_getElem inside]
  · rfl

/-- What was stored is read back behind what stood before it. -/
theorem window_store (block : Nat → Cell) (start : Nat) (cells : List Cell) :
    window (store block start cells) 0 (start + cells.length) = window block 0 start ++ cells := by
  rw [window_add]
  congr 1
  · apply window_congr
    intro offset below
    have before : ¬ start ≤ 0 + offset := by omega
    simp only [store, if_neg before]
  · apply List.ext_getElem?
    intro position
    rw [getElem?_window]
    split
    · next below =>
        have inside : start ≤ 0 + start + position := by omega
        have offset : 0 + start + position - start = position := by omega
        simp only [store, if_pos inside, offset, List.getElem?_eq_getElem below, Option.getD_some]
    · next above => rw [List.getElem?_eq_none (Nat.le_of_not_lt above)]

/-- A list stored in two pieces, one behind the other. -/
theorem store_append (block : Nat → Cell) (start : Nat) (first second : List Cell) :
    store (store block start first) (start + first.length) second =
      store block start (first ++ second) := by
  funext position
  unfold store
  by_cases before : start ≤ position
  · rw [if_pos before, if_pos before, List.getElem?_append]
    by_cases inside : position - start < first.length
    · rw [if_neg (by omega), if_pos inside]
    · rw [if_pos (by omega), if_neg inside, List.getElem?_eq_none (Nat.le_of_not_lt inside),
        Option.getD_none, Nat.sub_add_eq]
  · rw [if_neg before, if_neg (by omega), if_neg before]

theorem store_nil (block : Nat → Cell) (start : Nat) : store block start [] = block := by
  funext position
  simp [store]

theorem store_apply (block : Nat → Cell) (start : Nat) {cells : List Cell} {offset : Nat}
    {cell : Cell} (holds : cells[offset]? = some cell) :
    store block start cells (start + offset) = cell := by
  simp [store, holds]

/-- Cells behind those that are stored are left alone. -/
theorem store_apply_of_le (block : Nat → Cell) {start position : Nat} {cells : List Cell}
    (behind : start + cells.length ≤ position) :
    store block start cells position = block position := by
  rw [store, if_pos (by omega), List.getElem?_eq_none (by omega), Option.getD_none]

/-- Storing the first of some stored cells once more changes nothing. -/
theorem store_take (block : Nat → Cell) (start : Nat) (cells : List Cell) (count : Nat) :
    store (store block start cells) start (cells.take count) = store block start cells := by
  funext position
  unfold store
  by_cases before : start ≤ position
  · rw [if_pos before, if_pos before, List.getElem?_take]
    split
    · cases cells[position - start]? with
      | none => rfl
      | some cell => rfl
    · rfl
  · rw [if_neg before, if_neg before]

/-- The first of some stored cells are read back. -/
theorem window_store_take (block : Nat → Cell) (start : Nat) {cells : List Cell} {count : Nat}
    (few : count ≤ cells.length) :
    window (store block start cells) start count = cells.take count := by
  apply List.ext_getElem?
  intro position
  rw [getElem?_window, List.getElem?_take]
  split
  · next below =>
      rw [store_apply block start (List.getElem?_eq_getElem (Nat.lt_of_lt_of_le below few)),
        List.getElem?_eq_getElem (Nat.lt_of_lt_of_le below few)]
  · rfl

end LibNet.Runs
