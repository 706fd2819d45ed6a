import Mathlib

/-!
# The text of a result set

The second half of `open_db` of `db_mysql.cpp`: how long the text of a result set is
taken to be, and how it is put together in `m_pResult`.  The length is counted in an
`int` while names and cells are copied, and a closed formula adds the punctuation.
-/

namespace LibNet.Db

/-- A result set: the names of its columns, of which there is one at least, and for
every row one cell a column, `none` for a null one.  A `Char` stands for one byte, as
`strlen` counts them and `strncpy` copies them. -/
structure ResultSet where
  names : List (List Char)
  rows : List (List (Option (List Char)))
  columns : 0 < names.length
  rectangular : ∀ row ∈ rows, row.length = names.length

/-- The text a cell is copied as. -/
def cellText : Option (List Char) → List Char
  | none => "NULL".toList
  | some text => text

/-- The conversion to the `int` that `m_pResult_length` is. -/
def int32 (value : Int) : Int := value.bmod (2 ^ 32)

/-- The loop over the columns. -/
def namesLength (row : Nat) (names : List (List Char)) : Int :=
  names.foldl (fun length name => int32 (name.length * row + length)) 0

/-- The loop over the cells of a row. -/
def rowLength (length : Int) (cells : List (Option (List Char))) : Int :=
  cells.foldl
    (fun length cell =>
      match cell with
      | none => int32 (4 + length)
      | some text => int32 (text.length + length))
    length

/-- The loop over the rows. -/
def rowsLength (length : Int) (rows : List (List (Option (List Char)))) : Int :=
  rows.foldl rowLength length

/-- The table name is counted if there is one. -/
def namedLength (tableName : Option (List Char)) (length : Int) : Int :=
  match tableName with
  | none => length
  | some name => int32 (length + name.length)

/-- `m_pResult_length`, the size that is allocated. -/
def resultLength (tableName : Option (List Char)) (result : ResultSet) : Int :=
  let row : Int := result.rows.length
  let column : Int := result.names.length
  let copied := rowsLength (namesLength result.rows.length result.names) result.rows
  int32 (namedLength tableName copied + 2 + 2 + 1 + 2 + 2 * row +
    row * (2 * column - 1 + 4 * column) + row - 1)

/-- The loop over the columns of a row, from column `j` on. -/
def fieldsLoop (text : List Char) (j : Nat) : List (List Char × List Char) → List Char
  | [] => text
  | (name, cell) :: rest =>
      let comma := if j ≠ 0 then text ++ [','] else text
      fieldsLoop (comma ++ ['"'] ++ name ++ ['"'] ++ [':'] ++ ['"'] ++ cell ++ ['"']) (j + 1) rest

/-- The loop over the rows, from row `i` on; row 0 holds the names. -/
def rowsLoop (names : List (List Char)) (text : List Char) (i : Nat) :
    List (List (List Char)) → List Char
  | [] => text
  | cells :: rest =>
      let comma := if i ≠ 1 then text ++ [','] else text
      rowsLoop names (fieldsLoop (comma ++ ['\x7b']) 0 (names.zip cells) ++ ['\x7d']) (i + 1) rest

/-- What the calls of `strcat` leave in `m_pResult`. -/
def resultText (tableName : Option (List Char)) (result : ResultSet) : List Char :=
  let opening := ['\x7b', '"'] ++ tableName.getD [] ++ ['"', ':', '[']
  rowsLoop result.names opening 1 (result.rows.map (List.map cellText)) ++ [']'] ++ ['\x7d']

theorem int32_add_int32 (value other : Int) : int32 (value + int32 other) = int32 (value + other) :=
  Int.add_bmod_bmod

/-- The conversion never makes a length larger. -/
theorem int32_le {value : Int} (nonnegative : 0 ≤ value) : int32 value ≤ value := by
  unfold int32
  rw [Int.bmod_def]
  split
  · omega
  · omega

/-- A loop that adds to an `int` computes the sum, up to the conversion. -/
theorem int32_foldl {α : Type} (amount : α → Nat) (items : List α) (length : Int) :
    int32 (items.foldl (fun length item => int32 (amount item + length)) length) =
      int32 ((items.map amount).sum + length) := by
  induction items generalizing length with
  | nil => simp only [List.foldl_nil, List.map_nil, List.sum_nil, Nat.cast_zero, Int.zero_add]
  | cons item rest ih =>
      rw [List.foldl_cons, ih, int32_add_int32, List.map_cons, List.sum_cons]
      congr 1
      omega

/-- The bytes of the names, and of the cells of a row. -/
def nameBytes (names : List (List Char)) : Nat := (names.map List.length).sum

def cellBytes (cells : List (Option (List Char))) : Nat :=
  (cells.map fun cell => (cellText cell).length).sum

theorem int32_namesLength (row : Nat) (names : List (List Char)) :
    int32 (namesLength row names) = int32 (nameBytes names * row) := by
  have sum := int32_foldl (fun name : List Char => name.length * row) names 0
  rw [List.sum_map_mul_right, Int.add_zero] at sum
  simpa only [namesLength, nameBytes, Nat.cast_mul] using sum

theorem int32_rowLength (length : Int) (cells : List (Option (List Char))) :
    int32 (rowLength length cells) = int32 (cellBytes cells + length) := by
  rw [cellBytes, ← int32_foldl, rowLength]
  congr 2
  funext length cell
  cases cell with
  | none => rfl
  | some text => rfl

theorem int32_rowsLength (length : Int) (rows : List (List (Option (List Char)))) :
    int32 (rowsLength length rows) = int32 ((rows.map cellBytes).sum + length) := by
  induction rows generalizing length with
  | nil => simp only [rowsLength, List.foldl_nil, List.map_nil, List.sum_nil, Nat.cast_zero,
      Int.zero_add]
  | cons cells rest ih =>
      have later := ih (rowLength length cells)
      rw [← int32_add_int32, int32_rowLength, int32_add_int32] at later
      rw [rowsLength, List.foldl_cons]
      refine later.trans ?_
      rw [List.map_cons, List.sum_cons]
      congr 1
      omega

theorem int32_namedLength (tableName : Option (List Char)) (length : Int) :
    int32 (namedLength tableName length) = int32 ((tableName.getD []).length + length) := by
  cases tableName with
  | none => simp only [namedLength, Option.getD_none, List.length_nil, Nat.cast_zero, Int.zero_add]
  | some name =>
      have once := int32_add_int32 0 (length + name.length)
      simp only [Int.zero_add] at once
      simp only [namedLength, Option.getD_some, once, Int.add_comm]

/-- The length the formula stands for. -/
def countedLength (tableName : Option (List Char)) (result : ResultSet) : Int :=
  nameBytes result.names * result.rows.length + (result.rows.map cellBytes).sum +
    (tableName.getD []).length + 6 + 2 * result.rows.length +
    6 * (result.rows.length * result.names.length)

/-- The code computes that length, up to the conversion. -/
theorem resultLength_eq (tableName : Option (List Char)) (result : ResultSet) :
    resultLength tableName result = int32 (countedLength tableName result) := by
  have rows := int32_rowsLength (namesLength result.rows.length result.names) result.rows
  rw [← int32_add_int32, int32_namesLength, int32_add_int32] at rows
  simp only [resultLength, countedLength]
  generalize rowsLength (namesLength result.rows.length result.names) result.rows = copied at rows
  have named := int32_namedLength tableName copied
  rw [← int32_add_int32, rows, int32_add_int32] at named
  have regroup : namedLength tableName copied + 2 + 2 + 1 + 2 + 2 * (result.rows.length : Int) +
        result.rows.length * (2 * result.names.length - 1 + 4 * result.names.length) +
        result.rows.length - 1 =
      6 + 2 * result.rows.length + 6 * (result.rows.length * result.names.length) +
        namedLength tableName copied := by
    ring
  rw [regroup, ← int32_add_int32, named, int32_add_int32]
  congr 1
  ring

/-! ## The length of the text -/

/-- A field behind a comma: its name, its cell, four quotes and a colon. -/
def fieldBytes (field : List Char × List Char) : Nat := field.1.length + field.2.length + 6

theorem length_fieldsLoop_succ (text : List Char) (j : Nat)
    (fields : List (List Char × List Char)) :
    (fieldsLoop text (j + 1) fields).length = text.length + (fields.map fieldBytes).sum := by
  induction fields generalizing text j with
  | nil => rfl
  | cons field rest ih =>
      obtain ⟨name, cell⟩ := field
      rw [fieldsLoop, ih]
      simp only [ne_eq, Nat.add_eq_zero_iff, Nat.one_ne_zero, and_false, not_false_eq_true, if_true,
        List.length_append, List.length_cons, List.length_nil, List.map_cons, List.sum_cons,
        fieldBytes]
      omega

/-- The first field has no comma. -/
theorem length_fieldsLoop_zero (text : List Char) {fields : List (List Char × List Char)}
    (some_fields : fields ≠ []) :
    (fieldsLoop text 0 fields).length + 1 = text.length + (fields.map fieldBytes).sum := by
  cases fields with
  | nil => exact absurd rfl some_fields
  | cons field rest =>
      obtain ⟨name, cell⟩ := field
      rw [fieldsLoop, length_fieldsLoop_succ]
      simp only [ne_eq, not_true_eq_false, if_false, List.length_append, List.length_cons,
        List.length_nil, List.map_cons, List.sum_cons, fieldBytes]
      omega

/-- The fields of a row are made up of all names and all cells. -/
theorem sum_fieldBytes_zip {names cells : List (List Char)} (same : cells.length = names.length) :
    ((names.zip cells).map fieldBytes).sum =
      nameBytes names + (cells.map List.length).sum + 6 * names.length := by
  induction names generalizing cells with
  | nil =>
      rw [List.eq_nil_of_length_eq_zero same]
      rfl
  | cons name rest ih =>
      cases cells with
      | nil => cases same
      | cons cell others =>
          have later := ih (Nat.succ.inj same)
          simp only [List.zip_cons_cons, List.map_cons, List.sum_cons, later, nameBytes, fieldBytes,
            List.length_cons]
          omega

/-- A row behind a comma: its fields, the first one without a comma, and two braces. -/
def rowBytes (names cells : List (List Char)) : Nat :=
  nameBytes names + (cells.map List.length).sum + 6 * names.length + 2

section Rows

variable {names : List (List Char)} (columns : 0 < names.length)

include columns

theorem length_row (text : List Char) {cells : List (List Char)}
    (same : cells.length = names.length) :
    (fieldsLoop text 0 (names.zip cells)).length + 3 = text.length + rowBytes names cells := by
  have some_fields : names.zip cells ≠ [] := by
    intro nothing
    have none_left := congrArg List.length nothing
    rw [List.length_zip, same, Nat.min_self] at none_left
    exact absurd none_left (Nat.ne_of_gt columns)
  have fields := length_fieldsLoop_zero text some_fields
  rw [sum_fieldBytes_zip same] at fields
  unfold rowBytes
  omega

theorem length_rowsLoop_succ (text : List Char) (i : Nat) {rows : List (List (List Char))}
    (rectangular : ∀ cells ∈ rows, cells.length = names.length) :
    (rowsLoop names text (i + 2) rows).length =
      text.length + (rows.map (rowBytes names)).sum := by
  induction rows generalizing text i with
  | nil => rfl
  | cons cells rest ih =>
      obtain ⟨same, others⟩ := List.forall_mem_cons.mp rectangular
      have row := length_row columns (text ++ [','] ++ ['\x7b']) same
      rw [rowsLoop, ih _ _ others]
      simp only [ne_eq, Nat.reduceEqDiff, not_false_eq_true, if_true, List.length_append,
        List.length_cons, List.length_nil, List.map_cons, List.sum_cons] at row ⊢
      omega

/-- The first row has no comma. -/
theorem length_rowsLoop_le (text : List Char) {rows : List (List (List Char))}
    (rectangular : ∀ cells ∈ rows, cells.length = names.length) :
    text.length + (rows.map (rowBytes names)).sum ≤ (rowsLoop names text 1 rows).length + 1 := by
  cases rows with
  | nil => exact Nat.le_succ _
  | cons cells rest =>
      obtain ⟨same, others⟩ := List.forall_mem_cons.mp rectangular
      have row := length_row columns (text ++ ['\x7b']) same
      rw [rowsLoop, length_rowsLoop_succ columns _ _ others]
      simp only [ne_eq, not_true_eq_false, if_false, List.length_append, List.length_cons,
        List.length_nil, List.map_cons, List.sum_cons] at row ⊢
      omega

end Rows

/-- All rows together. -/
theorem sum_rowBytes (names : List (List Char)) (rows : List (List (Option (List Char)))) :
    ((rows.map (List.map cellText)).map (rowBytes names)).sum =
      nameBytes names * rows.length + (rows.map cellBytes).sum +
        6 * (rows.length * names.length) + 2 * rows.length := by
  induction rows with
  | nil => simp
  | cons cells rest ih =>
      have row : rowBytes names (cells.map cellText) =
          nameBytes names + cellBytes cells + 6 * names.length + 2 := by
        simp only [rowBytes, cellBytes, List.map_map, Function.comp_def]
      rw [List.map_cons, List.map_cons, List.sum_cons, ih, row, List.map_cons, List.sum_cons,
        List.length_cons]
      ring

/-- The formula counts the characters of the text, one short without rows. -/
theorem countedLength_le (tableName : Option (List Char)) (result : ResultSet) :
    countedLength tableName result ≤ (resultText tableName result).length := by
  have rectangular : ∀ cells ∈ result.rows.map (List.map cellText),
      cells.length = result.names.length := by
    intro cells member
    obtain ⟨row, isRow, rfl⟩ := List.mem_map.mp member
    rw [List.length_map]
    exact result.rectangular row isRow
  have rows := length_rowsLoop_le result.columns
    (['\x7b', '"'] ++ tableName.getD [] ++ ['"', ':', '[']) rectangular
  rw [sum_rowBytes] at rows
  simp only [resultText, countedLength, List.length_append, List.length_cons, List.length_nil]
    at rows ⊢
  push_cast
  zify at rows
  linarith

/--
Whatever the table name, the names and the cells: the size that is allocated for the
text is never enough for the text and its terminating zero.
-/
theorem result_overruns (tableName : Option (List Char)) (result : ResultSet) :
    ¬ ((resultText tableName result).length + 1 : Int) ≤ resultLength tableName result := by
  have nonnegative : 0 ≤ countedLength tableName result := by
    unfold countedLength
    positivity
  have converted := int32_le nonnegative
  have counted := countedLength_le tableName result
  rw [resultLength_eq]
  omega

/-- One row with one cell. -/
def oneCell : ResultSet where
  names := ["c".toList]
  rows := [[some "1".toList]]
  columns := by decide
  rectangular := by decide

/-- The 17 characters of the text get 17 bytes. -/
theorem one_cell_overruns :
    (resultText (some "t".toList) oneCell).length = 17 ∧
      resultLength (some "t".toList) oneCell = 17 ∧
      ¬ ((resultText (some "t".toList) oneCell).length + 1 : Int) ≤
        resultLength (some "t".toList) oneCell := by
  decide

end LibNet.Db
