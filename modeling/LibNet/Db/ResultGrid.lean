import LibNet.Db.TableName

/-!
# The copies of a result set

What `open_db` copies before it puts its text together: the statement to `temp_sql`, and
every name and cell to a buffer of its own, to which an entry of `result_out` points.  The
entries are counted in an `int` for the columns and another for the rows, while `row` and
`column` come from the client.  Memory that is asked for is taken to be there.
-/

namespace LibNet.Db

open Connection (tempSqlSize)

/-- `strncpy(dest, source, count)`: the string, and zeros up to `count`.  There is no result
if it writes behind the end of `dest`. -/
def strncpy? (dest source : List Char) (count : Nat) : Option (List Char) :=
  if count ≤ dest.length then
    some ((cString source).take count ++
      List.replicate (count - (cString source).length) '\x00' ++ dest.drop count)
  else none

/-- An entry of `result_out`: its indices, the size of the buffer allocated for it and what
is copied there. -/
structure Entry where
  i : Int
  j : Int
  size : Nat
  source : List Char

/-- `strncpy` is told to copy the terminating zero with the string. -/
def Entry.copy? (entry : Entry) (buffer : List Char) : Option (List Char) :=
  strncpy? buffer entry.source (1 + (cString entry.source).length)

def Entry.position (entry : Entry) : Int × Int := (entry.i, entry.j)

/-- A loop that fetches items until there are none left, and counts them in an `int`. -/
def numbered {α : Type} (count : Int) : List α → List (Int × α)
  | [] => []
  | item :: rest => (count, item) :: numbered (int32 (count + 1)) rest

def nameEntry (iFieldCount : Int) (name : List Char) : Entry :=
  ⟨0, iFieldCount, 1 + (cString name).length, name⟩

def cellEntry (iCount i : Int) : Option (List Char) → Entry
  | none => ⟨iCount, i, 5, "NULL".toList⟩
  | some text => ⟨iCount, i, 1 + (cString text).length, text⟩

/-- `*column`, `*row`, and how many `result_out[i]` are allocated. -/
def ResultSet.column (result : ResultSet) : Int := int32 result.names.length

def ResultSet.row (result : ResultSet) : Int := int32 result.rows.length

def ResultSet.allocated (result : ResultSet) : Int := int32 (1 + result.row)

/-- The loop over the cells of a row. -/
def rowEntries (column iCount : Int) (cells : List (Option (List Char))) : List Entry :=
  ((numbered 0 cells).takeWhile fun cell => decide (cell.1 < column)).map
    fun cell => cellEntry iCount cell.1 cell.2

/-- The entries of `result_out` in the order in which they are written. -/
def entries (result : ResultSet) : List Entry :=
  (numbered 0 result.names).map (fun name => nameEntry name.1 name.2) ++
    (numbered 1 result.rows).flatMap fun row => rowEntries result.column row.1 row.2

/-- The statement and its zero are inside `temp_sql`, which `memset` has filled with zeros. -/
def StatementInside (sql : List Char) : Prop :=
  ∃ text, strncpy? (List.replicate tempSqlSize '\x00') sql (cString sql).length = some text ∧
    '\x00' ∈ text

/-- Whatever the buffer holds before, the string and its zero are inside it. -/
def Entry.Inside (entry : Entry) : Prop :=
  ∀ buffer : List Char, buffer.length = entry.size →
    ∃ text, entry.copy? buffer = some text ∧ '\x00' ∈ text ∧ cString text = cString entry.source

/-- The entry exists: it is one of an allocated `result_out[i]`. -/
def Placed (result : ResultSet) (position : Int × Int) : Prop :=
  (0 ≤ position.1 ∧ position.1 ≤ result.row ∧ position.1 < result.allocated) ∧
    0 ≤ position.2 ∧ position.2 < result.column

/-- All copies stay inside their destinations, and every entry is written once. -/
structure CopiesInside (sql : List Char) (result : ResultSet) : Prop where
  statement : StatementInside sql
  buffers : ∀ entry ∈ entries result, entry.Inside
  placed : ∀ entry ∈ entries result, Placed result entry.position
  once : ∀ i j : Int, 0 ≤ i → i ≤ result.row → 0 ≤ j → j < result.column →
    ((entries result).map Entry.position).count (i, j) = 1

theorem statementInside_iff (sql : List Char) :
    StatementInside sql ↔ (cString sql).length < tempSqlSize := by
  unfold StatementInside strncpy?
  rw [List.length_replicate, List.take_length, Nat.sub_self, List.replicate_zero, List.append_nil,
    List.drop_replicate]
  constructor
  · rintro ⟨text, copied, zero⟩
    split at copied
    · cases copied
      rcases List.mem_append.mp zero with inside | behind
      · exact absurd inside (zero_notMem_cString sql)
      · exact Nat.lt_of_sub_ne_zero (List.mem_replicate.mp behind).1
    · cases copied
  · intro room
    refine ⟨_, if_pos (Nat.le_of_lt room), List.mem_append_right _ ?_⟩
    exact List.mem_replicate.mpr ⟨Nat.sub_ne_zero_of_lt room, rfl⟩

/-- The array that the table name is looked for in is what `strncpy` leaves there. -/
theorem tempSql?_eq_strncpy? {sql text : List Char} (copied : tempSql? sql = some text) :
    strncpy? (List.replicate tempSqlSize '\x00') sql (cString sql).length = some text := by
  rw [tempSql?] at copied
  split at copied
  · next room =>
      rw [strncpy?, if_pos (by rw [List.length_replicate]; exact Nat.le_of_lt room), ← copied,
        List.take_length, Nat.sub_self, List.replicate_zero, List.append_nil, List.drop_replicate]
  · cases copied

/-- A string fills a buffer of its length and one more. -/
theorem Entry.inside_of_size {entry : Entry}
    (size : entry.size = 1 + (cString entry.source).length) : entry.Inside := by
  intro buffer length
  rw [size] at length
  refine ⟨cString entry.source ++ ['\x00'], ?_, List.mem_append_right _ List.mem_cons_self, ?_⟩
  · rw [Entry.copy?, strncpy?, if_pos (Nat.le_of_eq length.symm), Nat.add_sub_cancel, ← length,
      List.drop_length, List.append_nil, length, List.take_of_length_le (Nat.le_add_left _ _)]
    rfl
  · exact cString_append_zero (zero_notMem_cString _) []

theorem cellEntry_inside (iCount i : Int) (cell : Option (List Char)) :
    (cellEntry iCount i cell).Inside := by
  refine Entry.inside_of_size ?_
  cases cell with
  | none =>
      have four : 5 = 1 + (cString "NULL".toList).length := by decide
      exact four
  | some text => rfl

theorem entries_inside (result : ResultSet) : ∀ entry ∈ entries result, entry.Inside := by
  intro entry member
  rcases List.mem_append.mp member with isName | isCell
  · obtain ⟨name, _, rfl⟩ := List.mem_map.mp isName
    exact Entry.inside_of_size rfl
  · obtain ⟨row, _, inRow⟩ := List.mem_flatMap.mp isCell
    obtain ⟨cell, _, rfl⟩ := List.mem_map.mp inRow
    exact cellEntry_inside _ _ _

theorem int32_lt (value : Int) : int32 value < 2 ^ 31 := by
  unfold int32
  rw [Int.bmod_def]
  split
  · omega
  · omega

theorem int32_natCast {number : Nat} (small : number < 2 ^ 31) : int32 number = number := by
  unfold int32
  rw [Int.bmod_def]
  split
  · omega
  · omega

/-- The counter is the number of the item, up to the conversion. -/
theorem numbered_eq {α : Type} {count : Int} {first : Nat} (starts : count = int32 first)
    (items : List α) :
    numbered count items = (items.zipIdx first).map fun item => (int32 item.2, item.1) := by
  induction items generalizing count first with
  | nil => rfl
  | cons item rest ih =>
      have next : int32 (count + 1) = int32 (first + 1 : Nat) := by
        rw [starts, Int.add_comm, int32_add_int32, Int.add_comm, Nat.cast_succ]
      rw [numbered, ih next, starts, List.zipIdx_cons, List.map_cons]

/-- The entries of the names, and those of the rows. -/
theorem entries_eq (result : ResultSet) :
    entries result =
      (result.names.zipIdx.map fun name => nameEntry (int32 name.2) name.1) ++
        (result.rows.zipIdx 1).flatMap fun row =>
          rowEntries result.column (int32 row.2) row.1 := by
  have zero : 0 = int32 (0 : Nat) := by decide
  have one : 1 = int32 (1 : Nat) := by decide
  simp only [entries, numbered_eq zero, numbered_eq one, List.map_map, List.flatMap_map,
    Function.comp_def]

/-- A row of few enough cells has an entry for each. -/
theorem rowEntries_eq {cells : List (Option (List Char))} (few : cells.length < 2 ^ 31)
    (iCount : Int) :
    rowEntries (int32 cells.length) iCount cells =
      cells.zipIdx.map fun cell => cellEntry iCount cell.2 cell.1 := by
  have zero : 0 = int32 (0 : Nat) := by decide
  have exact_numbers : (cells.zipIdx.map fun cell => (int32 cell.2, cell.1)) =
      cells.zipIdx.map fun cell => ((cell.2 : Int), cell.1) := by
    refine List.map_congr_left fun cell member => ?_
    rw [int32_natCast (Nat.lt_trans (List.snd_lt_of_mem_zipIdx member) few)]
  rw [rowEntries, numbered_eq zero, exact_numbers, int32_natCast few,
    List.takeWhile_eq_self_iff.mpr, List.map_map]
  · rfl
  · intro cell member
    obtain ⟨original, isCell, rfl⟩ := List.mem_map.mp member
    exact decide_eq_true (Int.ofNat_lt.mpr (List.snd_lt_of_mem_zipIdx isCell))

/-! ## Small enough result sets -/

/-- As many rows and columns as an `int` counts, with the row of the names. -/
def ResultSet.Countable (result : ResultSet) : Prop :=
  result.names.length < 2 ^ 31 ∧ result.rows.length + 1 < 2 ^ 31

/-- The places of a grid in the order of its rows. -/
def grid (row column : Nat) : List (Int × Int) :=
  (List.range (row + 1) ×ˢ List.range column).map fun place => (place.1, place.2)

theorem nodup_grid (row column : Nat) : (grid row column).Nodup := by
  refine (List.nodup_range.product List.nodup_range).map ?_
  rintro ⟨i, j⟩ ⟨i', j'⟩ same
  simpa using same

theorem mem_grid {row column : Nat} {i j : Int} :
    (i, j) ∈ grid row column ↔ (0 ≤ i ∧ i ≤ row) ∧ 0 ≤ j ∧ j < column := by
  constructor
  · intro member
    obtain ⟨⟨i', j'⟩, inside, same⟩ := List.mem_map.mp member
    obtain ⟨first, second⟩ := List.mem_product.mp inside
    cases same
    have := List.mem_range.mp first
    have := List.mem_range.mp second
    omega
  · rintro ⟨⟨low, high⟩, left, right⟩
    lift i to Nat using low
    lift j to Nat using left
    refine List.mem_map.mpr ⟨(i, j), List.mem_product.mpr ⟨?_, ?_⟩, rfl⟩
    · exact List.mem_range.mpr (by omega)
    · exact List.mem_range.mpr (by omega)

/-- The places of a row. -/
def gridRow (i : Int) (column : Nat) : List (Int × Int) :=
  (List.range column).map fun j : Nat => (i, (j : Int))

theorem grid_eq (row column : Nat) :
    grid row column =
      gridRow 0 column ++ (List.range' 1 row).flatMap fun i : Nat => gridRow i column := by
  have rows : List.range (row + 1) = 0 :: List.range' 1 row := by
    rw [List.range_eq_range', List.range'_succ]
  rw [grid, rows, List.product_cons, List.map_append, List.map_map]
  refine congrArg _ ((List.map_flatMap ..).trans ?_)
  refine List.flatMap_congr fun i _ => ?_
  exact List.map_map

theorem cellEntry_position (iCount i : Int) (cell : Option (List Char)) :
    (cellEntry iCount i cell).position = (iCount, i) := by
  cases cell with
  | none => rfl
  | some text => rfl

/-- The entries of a row, and those of the names, are written from left to right. -/
theorem positions_row {cells : List (Option (List Char))} (few : cells.length < 2 ^ 31)
    (iCount : Int) :
    (rowEntries (int32 cells.length) iCount cells).map Entry.position =
      gridRow iCount cells.length := by
  rw [rowEntries_eq few, gridRow, List.map_map, List.range_eq_range', ← List.zipIdx_map_snd,
    List.map_map]
  refine List.map_congr_left fun cell _ => ?_
  exact cellEntry_position iCount cell.2 cell.1

theorem positions_names {names : List (List Char)} (few : names.length < 2 ^ 31) :
    (names.zipIdx.map fun name => nameEntry (int32 name.2) name.1).map Entry.position =
      gridRow 0 names.length := by
  rw [gridRow, List.map_map, List.range_eq_range', ← List.zipIdx_map_snd, List.map_map]
  refine List.map_congr_left fun name member => ?_
  have number : int32 name.2 = name.2 :=
    int32_natCast (Nat.lt_trans (List.snd_lt_of_mem_zipIdx member) few)
  simp only [Function.comp_apply, Entry.position, nameEntry, number]

/-- The entries are written row by row, the row of the names first. -/
theorem positions_entries {result : ResultSet} (countable : result.Countable) :
    (entries result).map Entry.position = grid result.rows.length result.names.length := by
  obtain ⟨columns, rows⟩ := countable
  rw [entries_eq, List.map_append, positions_names columns, grid_eq, List.map_flatMap,
    ← List.zipIdx_map_snd, List.flatMap_map]
  congr 1
  refine List.flatMap_congr fun row member => ?_
  have same := result.rectangular row.1 (List.fst_mem_of_mem_zipIdx member)
  have number : int32 row.2 = row.2 := by
    refine int32_natCast (Nat.lt_of_lt_of_le (List.snd_lt_add_of_mem_zipIdx member) ?_)
    omega
  rw [ResultSet.column, ← same, positions_row (same ▸ columns), number]

/-- What is copied is what the text is put together from. -/
theorem sources_entries {result : ResultSet} (countable : result.Countable) :
    (entries result).map (fun entry => cString entry.source) =
      result.copied.names ++ result.copied.rows.flatMap (List.map cellText) := by
  have source : ∀ iCount i cell, (cellEntry iCount i cell).source = cellText cell := by
    intro iCount i cell
    cases cell with
    | none => rfl
    | some text => rfl
  rw [entries_eq, List.map_append, List.map_map, List.map_flatMap]
  simp only [ResultSet.copied, List.flatMap_map, List.map_map, Function.comp_def,
    cellText_map_cString]
  congr 1
  · conv_rhs => rw [← List.zipIdx_map_fst 0 result.names, List.map_map]
    rfl
  · conv_rhs => rw [← List.zipIdx_map_fst 1 result.rows, List.flatMap_map]
    refine List.flatMap_congr fun row member => ?_
    have same := result.rectangular row.1 (List.fst_mem_of_mem_zipIdx member)
    rw [ResultSet.column, ← same, rowEntries_eq (same ▸ countable.1), List.map_map]
    conv_rhs => rw [← List.zipIdx_map_fst 0 row.1, List.map_map]
    refine List.map_congr_left fun cell _ => ?_
    exact congrArg cString (source _ _ _)

theorem ResultSet.Countable.row {result : ResultSet} (countable : result.Countable) :
    result.row = result.rows.length ∧ result.allocated = result.rows.length + 1 := by
  have row : result.row = result.rows.length :=
    int32_natCast (Nat.lt_of_succ_lt countable.2)
  refine ⟨row, ?_⟩
  rw [ResultSet.allocated, row, Int.add_comm]
  exact int32_natCast countable.2

/-! ## Result sets that are too large -/

/-- The name that the `int` cannot count any more has no place. -/
theorem columns_of_placed {result : ResultSet}
    (placed : ∀ entry ∈ entries result, Placed result entry.position) :
    result.names.length < 2 ^ 31 := by
  by_contra many
  have inside : 2 ^ 31 - 1 < result.names.length := by omega
  have member : nameEntry (int32 (2 ^ 31 - 1 : Nat)) result.names[2 ^ 31 - 1] ∈
      entries result := by
    rw [entries_eq]
    refine List.mem_append_left _ (List.mem_map.mpr ⟨(_, 2 ^ 31 - 1), ?_, rfl⟩)
    exact List.mk_mem_zipIdx_iff_getElem?.mpr (List.getElem?_eq_getElem inside)
  have left : int32 (2 ^ 31 - 1 : Nat) < result.column := (placed _ member).2.2
  rw [int32_natCast (by decide)] at left
  have bound := int32_lt result.names.length
  unfold ResultSet.column at left
  omega

/-- Nor has the first cell of such a row. -/
theorem rows_of_placed {result : ResultSet}
    (placed : ∀ entry ∈ entries result, Placed result entry.position) :
    result.rows.length + 1 < 2 ^ 31 := by
  have columns := columns_of_placed placed
  by_contra many
  have inside : 2 ^ 31 - 2 < result.rows.length := by omega
  have same := result.rectangular _ (List.getElem_mem inside)
  have isRow : (result.rows[2 ^ 31 - 2], 1 + (2 ^ 31 - 2)) ∈ result.rows.zipIdx 1 :=
    List.mk_add_mem_zipIdx_iff_getElem?.mpr (List.getElem?_eq_getElem inside)
  generalize result.rows[2 ^ 31 - 2] = row at same isRow
  have first : 0 < row.length := same ▸ result.columns
  have member : cellEntry (int32 (1 + (2 ^ 31 - 2) : Nat)) (0 : Nat) row[0] ∈ entries result := by
    rw [entries_eq]
    refine List.mem_append_right _ (List.mem_flatMap.mpr ⟨_, isRow, ?_⟩)
    rw [ResultSet.column, ← same, rowEntries_eq (same ▸ columns)]
    refine List.mem_map.mpr ⟨(_, 0), ?_, rfl⟩
    exact List.mk_mem_zipIdx_iff_getElem?.mpr (List.getElem?_eq_getElem first)
  have below := (placed _ member).1.2.2
  rw [cellEntry_position, int32_natCast (by decide)] at below
  have bound := int32_lt (1 + result.row)
  unfold ResultSet.allocated at below
  omega

/--
All copies stay inside their destinations and every entry is written once exactly when the
statement has at most 199 bytes and the columns, and the rows with one more for the names,
can be counted in an `int`.
-/
theorem copies_inside_iff (sql : List Char) (result : ResultSet) :
    CopiesInside sql result ↔
      (cString sql).length ≤ 199 ∧ result.names.length < 2 ^ 31 ∧
        result.rows.length + 1 < 2 ^ 31 := by
  constructor
  · intro copies
    refine ⟨?_, columns_of_placed copies.placed, rows_of_placed copies.placed⟩
    exact Nat.le_of_lt_succ ((statementInside_iff sql).mp copies.statement)
  · rintro ⟨short, countable⟩
    have column : result.column = result.names.length := int32_natCast countable.1
    obtain ⟨row, allocated⟩ := ResultSet.Countable.row countable
    have positions := positions_entries countable
    refine ⟨(statementInside_iff sql).mpr (Nat.lt_succ_of_le short), entries_inside result, ?_, ?_⟩
    · intro entry member
      have place := List.mem_map_of_mem (f := Entry.position) member
      rw [positions] at place
      obtain ⟨⟨low, high⟩, sides⟩ := mem_grid.mp place
      rw [Placed, row, allocated, column]
      exact ⟨⟨low, high, Int.lt_add_one_of_le high⟩, sides⟩
    · intro i j low high left right
      rw [row] at high
      rw [column] at right
      rw [positions]
      exact List.count_eq_one_of_mem (nodup_grid _ _) (mem_grid.mpr ⟨⟨low, high⟩, left, right⟩)

/-- A statement with 200 spaces at its end. -/
def longStatement : List Char := "select c from t".toList ++ List.replicate 200 ' '

/-- It is copied over the end of `temp_sql`. -/
theorem long_statement_overruns :
    strncpy? (List.replicate tempSqlSize '\x00') longStatement (cString longStatement).length =
        none ∧
      ¬ CopiesInside longStatement oneCell := by
  have length : (cString longStatement).length = 215 := by decide +kernel
  have too_long : ¬ (cString longStatement).length ≤ tempSqlSize := by
    rw [length]
    decide
  constructor
  · exact if_neg (by rwa [List.length_replicate])
  · intro copies
    exact too_long (Nat.le_of_lt ((statementInside_iff longStatement).mp copies.statement))

end LibNet.Db
