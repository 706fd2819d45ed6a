import LibNet.Db.ResultText
import LibNet.Text.Json

/-!
# The text of a result set as JSON

What `open_db` leaves in `m_pResult` and `get_string` hands out.  The code writes the
table name, the names of the columns and the cells down as they are, and a null cell as
the four letters of `"NULL"`.  Names and cells pass through `strlen` and `strncpy`, which
stop at a zero.
-/

namespace LibNet.Db

open LibNet.Text

/-- What the functions on strings see of a text: the characters before the first zero. -/
def cString (text : List Char) : List Char := text.takeWhile fun char => decide (char ≠ '\x00')

/-- The result set as its names and cells are copied to `result_out`. -/
def ResultSet.copied (result : ResultSet) : ResultSet where
  names := result.names.map cString
  rows := result.rows.map fun row => row.map (Option.map cString)
  columns := by simpa using result.columns
  rectangular := by
    intro row member
    obtain ⟨original, isRow, rfl⟩ := List.mem_map.mp member
    simpa using result.rectangular original isRow

/-- What `open_db` leaves in `m_pResult`. -/
def mPResult (tableName : Option (List Char)) (result : ResultSet) : List Char :=
  resultText (tableName.map cString) result.copied

/-- `get_string` sets the pointer, through which a string is read, and returns its length. -/
def getString (mPResult : List Char) : List Char × Nat :=
  (cString mPResult, (cString mPResult).length)

/-- The fields of all rows: pairs of a name and the text of a cell. -/
def ResultSet.fields (result : ResultSet) : List (List (List Char × List Char)) :=
  result.rows.map fun row => result.names.zip (row.map cellText)

/-- The texts of an object with one member, an array of objects. -/
def tableTexts (name : List Char) (rows : List (List (List Char × List Char))) : Language Char :=
  jsonTexts (objectTexts [(name, arrayTexts (rows.map fun fields =>
    objectTexts (fields.map fun field => (field.1, stringTexts field.2))))])

def rowText (fields : List (List Char × List Char)) : List Char :=
  bareObject (fields.map fun field => (field.1, bareString field.2))

/-- The same, written down as it is. -/
def tableText (name : List Char) (rows : List (List (List Char × List Char))) : List Char :=
  bareObject [(name, bareArray (rows.map rowText))]

/-- Nothing in the row has to be escaped. -/
def PlainRow (fields : List (List Char × List Char)) : Prop :=
  ∀ field ∈ fields, (∀ char ∈ field.1, Unescaped char) ∧ ∀ char ∈ field.2, Unescaped char

theorem spells_table (name : List Char) (rows : List (List (List Char × List Char))) :
    Spells (tableTexts name rows) (tableText name rows)
      ((∀ char ∈ name, Unescaped char) ∧ ∀ fields ∈ rows, PlainRow fields) := by
  have row : ∀ fields ∈ rows,
      Spells (objectTexts (fields.map fun field => (field.1, stringTexts field.2)))
        (rowText fields) (PlainRow fields) :=
    fun fields _ => spells_object fun field _ => spells_string field.2
  have table := @spells_object Unit [()] _ _ _ (fun _ => name) fun _ _ => spells_array row
  exact (spells_json table).congr (by simp)

theorem fieldsLoop_succ (text : List Char) (j : Nat) (fields : List (List Char × List Char)) :
    fieldsLoop text (j + 1) fields = text ++
      (fields.map fun field => bareMember (field.1, bareString field.2)).flatMap (',' :: ·) := by
  induction fields generalizing text j with
  | nil => simp [fieldsLoop]
  | cons field rest ih =>
      rw [fieldsLoop, ih]
      simp [bareMember, bareString]

theorem fieldsLoop_zero (text : List Char) (fields : List (List Char × List Char)) :
    fieldsLoop (text ++ ['\x7b']) 0 fields ++ ['\x7d'] = text ++ rowText fields := by
  cases fields with
  | nil => simp [fieldsLoop, rowText, bareObject]
  | cons field rest =>
      rw [fieldsLoop, fieldsLoop_succ]
      simp [rowText, bareObject, intercalate_cons, bareMember, bareString, List.map_map,
        Function.comp_def]

theorem rowsLoop_succ (names : List (List Char)) (text : List Char) (i : Nat)
    (rows : List (List (List Char))) :
    rowsLoop names text (i + 2) rows = text ++
      (rows.map fun cells => rowText (names.zip cells)).flatMap (',' :: ·) := by
  induction rows generalizing text i with
  | nil => simp [rowsLoop]
  | cons cells rest ih =>
      rw [rowsLoop, ih, fieldsLoop_zero]
      simp

theorem rowsLoop_one (names : List (List Char)) (text : List Char)
    (rows : List (List (List Char))) :
    rowsLoop names text 1 rows = text ++
      [','].intercalate (rows.map fun cells => rowText (names.zip cells)) := by
  cases rows with
  | nil => simp [rowsLoop]
  | cons cells rest =>
      rw [rowsLoop, rowsLoop_succ, fieldsLoop_zero]
      simp [intercalate_cons]

/-- The calls of `strcat` write the document down without an escape. -/
theorem resultText_eq (tableName : Option (List Char)) (result : ResultSet) :
    resultText tableName result = tableText (tableName.getD []) result.fields := by
  rw [resultText, rowsLoop_one]
  simp [tableText, ResultSet.fields, bareObject, bareMember, bareString, bareArray, List.map_map,
    Function.comp_def]

theorem length_cString_le (text : List Char) : (cString text).length ≤ text.length :=
  (List.takeWhile_sublist _).length_le

theorem cString_of_unescaped {text : List Char} (plain : ∀ char ∈ text, Unescaped char) :
    cString text = text := by
  refine List.takeWhile_eq_self_iff.mpr fun char member => ?_
  have printable := (plain char member).1
  refine decide_eq_true fun zero => ?_
  rw [zero] at printable
  exact absurd printable (by decide)

theorem zero_notMem_cString (text : List Char) : '\x00' ∉ cString text := by
  intro member
  simpa using List.mem_takeWhile_imp member

/-- The letters of a null cell hold no zero. -/
theorem cellText_map_cString (cell : Option (List Char)) :
    cellText (cell.map cString) = cString (cellText cell) := by
  cases cell with
  | none => decide
  | some text => rfl

/-- The copies of a row's fields. -/
def copiedFields (fields : List (List Char × List Char)) : List (List Char × List Char) :=
  fields.map fun field => (cString field.1, cString field.2)

theorem fields_copied (result : ResultSet) :
    result.copied.fields = result.fields.map copiedFields := by
  simp only [ResultSet.fields, ResultSet.copied, List.map_map]
  refine List.map_congr_left fun row _ => ?_
  have cells : (row.map (Option.map cString)).map cellText = (row.map cellText).map cString := by
    simp only [List.map_map, Function.comp_def, cellText_map_cString]
  rw [Function.comp_apply, Function.comp_apply, cells, List.zip_map, copiedFields]
  rfl

theorem mPResult_eq (tableName : Option (List Char)) (result : ResultSet) :
    mPResult tableName result =
      tableText (cString (tableName.getD [])) (result.fields.map copiedFields) := by
  rw [mPResult, resultText_eq, fields_copied]
  cases tableName with
  | none => rfl
  | some name => rfl

/-- Cutting names and cells at zeros makes no text longer. -/
theorem length_rowText_copied_le (fields : List (List Char × List Char)) :
    (rowText (copiedFields fields)).length ≤ (rowText fields).length := by
  have members := length_intercalate_le [','] fun field (_ : field ∈ fields) =>
    show (bareMember (cString field.1, bareString (cString field.2))).length ≤
        (bareMember (field.1, bareString field.2)).length by
      have name := length_cString_le field.1
      have cell := length_cString_le field.2
      simp only [bareMember, bareString, List.length_append, List.length_cons]
      omega
  simp only [rowText, copiedFields, bareObject, List.map_map, Function.comp_def, List.length_append,
    List.length_cons] at members ⊢
  omega

theorem length_mPResult_le (tableName : Option (List Char)) (result : ResultSet) :
    (mPResult tableName result).length ≤
      (tableText (tableName.getD []) result.fields).length := by
  have rows := length_intercalate_le [','] fun fields (_ : fields ∈ result.fields) =>
    length_rowText_copied_le fields
  have name := length_cString_le (tableName.getD [])
  rw [mPResult_eq]
  simp only [tableText, bareObject, bareMember, bareArray, bareString, List.map_cons, List.map_nil,
    List.intercalate_singleton, List.map_map, Function.comp_def, List.length_append,
    List.length_cons, List.length_nil] at rows ⊢
  omega

theorem zero_notMem_rowText (fields : List (List Char × List Char)) :
    '\x00' ∉ rowText (copiedFields fields) := by
  have members : '\x00' ∉ [','].intercalate ((copiedFields fields).map fun field =>
      bareMember (field.1, bareString field.2)) := by
    refine notMem_intercalate (by decide) fun text member => ?_
    obtain ⟨_, isField, rfl⟩ := List.mem_map.mp member
    obtain ⟨field, _, rfl⟩ := List.mem_map.mp isField
    simp [bareMember, bareString, zero_notMem_cString]
  simpa [rowText, bareObject, Function.comp_def] using members

/-- `get_string` hands out all of the text. -/
theorem getString_mPResult (tableName : Option (List Char)) (result : ResultSet) :
    (getString (mPResult tableName result)).1 = mPResult tableName result := by
  have rows : '\x00' ∉ [','].intercalate
      ((result.fields.map copiedFields).map rowText) := by
    refine notMem_intercalate (by decide) fun text member => ?_
    obtain ⟨_, isRow, rfl⟩ := List.mem_map.mp member
    obtain ⟨fields, _, rfl⟩ := List.mem_map.mp isRow
    exact zero_notMem_rowText fields
  refine List.takeWhile_eq_self_iff.mpr fun char member => decide_eq_true ?_
  rintro rfl
  rw [mPResult_eq] at member
  simp [tableText, bareObject, bareMember, bareString, bareArray, zero_notMem_cString] at member
  exact rows (by simpa using member)

/-! ## What the text is and what it tells -/

/-- The text handed out is one of the object whose one member is the table name, with
the rows in an array. -/
def IsDocument (tableName : Option (List Char)) (result : ResultSet) : Prop :=
  (getString (mPResult tableName result)).1 ∈ tableTexts (tableName.getD []) result.fields

/-- Result sets that differ in their rows have different texts. -/
def ToldApart (tableName : Option (List Char)) (result other : ResultSet) : Prop :=
  result.names.Nodup → other.names.Nodup → result.rows ≠ other.rows →
    (getString (mPResult tableName result)).1 ≠ (getString (mPResult tableName other)).1

/-- No character of the table name, and in no row of a name or a cell, is a quote, a
backslash or a control character. -/
def Spellable (tableName : Option (List Char)) (result : ResultSet) : Prop :=
  (∀ char ∈ tableName.getD [], Unescaped char) ∧
    ∀ row ∈ result.rows, (∀ name ∈ result.names, ∀ char ∈ name, Unescaped char) ∧
      ∀ cell ∈ row, ∀ char ∈ cellText cell, Unescaped char

/-- The same cell, or a null one and the string `"NULL"`. -/
def Confusable (cell other : Option (List Char)) : Prop :=
  cell = other ∨ (cell = none ∧ other = some "NULL".toList) ∨
    (cell = some "NULL".toList ∧ other = none)

/-- The result sets have the same columns, and their rows differ only in cells that are
null in one and the string `"NULL"` in the other. -/
def NullsConfused (result other : ResultSet) : Prop :=
  result.names = other.names ∧ result.names.Nodup ∧ result.rows ≠ other.rows ∧
    List.Forall₂ (List.Forall₂ Confusable) result.rows other.rows

theorem plainRow_zip {names cells : List (List Char)} (same : cells.length = names.length) :
    PlainRow (names.zip cells) ↔
      (∀ name ∈ names, ∀ char ∈ name, Unescaped char) ∧
        ∀ cell ∈ cells, ∀ char ∈ cell, Unescaped char := by
  have firsts := List.map_fst_zip (Nat.le_of_eq same.symm)
  have seconds := List.map_snd_zip (Nat.le_of_eq same)
  simp only [PlainRow, forall_and]
  refine and_congr ?_ ?_
  · conv_rhs => rw [← firsts]
    rw [List.forall_mem_map]
  · conv_rhs => rw [← seconds]
    rw [List.forall_mem_map]

theorem spellable_iff (tableName : Option (List Char)) (result : ResultSet) :
    Spellable tableName result ↔
      (∀ char ∈ tableName.getD [], Unescaped char) ∧
        ∀ fields ∈ result.fields, PlainRow fields := by
  unfold Spellable ResultSet.fields
  rw [List.forall_mem_map]
  refine and_congr_right fun _ => forall₂_congr fun row isRow => ?_
  rw [plainRow_zip (by simpa using result.rectangular row isRow), List.forall_mem_map]

theorem copiedFields_of_plain {fields : List (List Char × List Char)} (plain : PlainRow fields) :
    copiedFields fields = fields := by
  refine (List.map_congr_left fun field member => ?_).trans (List.map_id fields)
  obtain ⟨name, cell⟩ := plain field member
  rw [cString_of_unescaped name, cString_of_unescaped cell]
  rfl

theorem mPResult_of_spellable {tableName : Option (List Char)} {result : ResultSet}
    (plain : Spellable tableName result) :
    mPResult tableName result = tableText (tableName.getD []) result.fields := by
  obtain ⟨name, rows⟩ := (spellable_iff tableName result).mp plain
  have copied : result.fields.map copiedFields = result.fields :=
    (List.map_congr_left fun fields member => copiedFields_of_plain (rows fields member)).trans
      (List.map_id _)
  rw [mPResult_eq, cString_of_unescaped name, copied]

/-- The text is a text of the document exactly when nothing had to be escaped. -/
theorem isDocument_iff (tableName : Option (List Char)) (result : ResultSet) :
    IsDocument tableName result ↔ Spellable tableName result := by
  have spells := spells_table (tableName.getD []) result.fields
  unfold IsDocument
  rw [getString_mPResult]
  constructor
  · intro member
    exact (spellable_iff tableName result).mpr
      (spells.tight _ member (length_mPResult_le tableName result))
  · intro plain
    rw [mPResult_of_spellable plain]
    exact spells.mem ((spellable_iff tableName result).mp plain)

theorem selfDelimiting_row : SelfDelimiting PlainRow rowText := by
  have members := selfDelimiting_member.separated (show ',' ≠ '\x7d' by decide)
    fun field => ⟨'"', _, rfl, by decide⟩
  intro fields others rest rest' plain plain' same
  refine members fields others rest rest' plain plain' ?_
  simpa [rowText, bareObject, Function.comp_def] using same

theorem tableText_injective {name : List Char} {rows others : List (List (List Char × List Char))}
    (plain : ∀ fields ∈ rows, PlainRow fields) (plain' : ∀ fields ∈ others, PlainRow fields)
    (same : tableText name rows = tableText name others) : rows = others := by
  have array := selfDelimiting_row.separated (show ',' ≠ ']' by decide)
    fun fields => ⟨'\x7b', _, rfl, by decide⟩
  refine (array rows others ['\x7d'] ['\x7d'] plain plain' ?_).1
  simpa [tableText, bareObject, bareMember, bareArray] using same

theorem cellText_eq_iff (cell other : Option (List Char)) :
    cellText cell = cellText other ↔ Confusable cell other := by
  cases cell with
  | none =>
      cases other with
      | none => simp [cellText, Confusable]
      | some text => simp [cellText, Confusable, eq_comm]
  | some text =>
      cases other with
      | none => simp [cellText, Confusable]
      | some text' => simp [cellText, Confusable]

theorem zip_eq_zip_iff {names names' cells cells' : List (List Char)}
    (same : cells.length = names.length) (same' : cells'.length = names'.length) :
    names.zip cells = names'.zip cells' ↔ names = names' ∧ cells = cells' := by
  constructor
  · intro fields
    have firsts := congrArg (List.map Prod.fst) fields
    have seconds := congrArg (List.map Prod.snd) fields
    rw [List.map_fst_zip (by omega), List.map_fst_zip (by omega)] at firsts
    rw [List.map_snd_zip (by omega), List.map_snd_zip (by omega)] at seconds
    exact ⟨firsts, seconds⟩
  · rintro ⟨rfl, rfl⟩
    rfl

theorem map_cellText_eq_iff (row row' : List (Option (List Char))) :
    row.map cellText = row'.map cellText ↔ List.Forall₂ Confusable row row' := by
  rw [← List.forall₂_eq_eq_eq, List.forall₂_map_left_iff, List.forall₂_map_right_iff]
  simp only [cellText_eq_iff]

/-- Equal fields are equal texts of the cells and, when there is a row, equal names. -/
theorem fields_eq_iff (result other : ResultSet) :
    result.fields = other.fields ↔
      List.Forall₂ (List.Forall₂ Confusable) result.rows other.rows ∧
        (result.rows ≠ [] → result.names = other.names) := by
  obtain ⟨names, rows, columns, rectangular⟩ := result
  obtain ⟨names', rows', columns', rectangular'⟩ := other
  simp only [ResultSet.fields]
  clear columns columns'
  induction rows generalizing rows' with
  | nil =>
      cases rows' with
      | nil => simp
      | cons row' rest' => simp
  | cons row rest ih =>
      cases rows' with
      | nil => simp
      | cons row' rest' =>
          obtain ⟨here, later⟩ := List.forall_mem_cons.mp rectangular
          obtain ⟨here', later'⟩ := List.forall_mem_cons.mp rectangular'
          have fields : names.zip (row.map cellText) = names'.zip (row'.map cellText) ↔
              names = names' ∧ List.Forall₂ Confusable row row' := by
            rw [zip_eq_zip_iff (by simpa using here) (by simpa using here'), map_cellText_eq_iff]
          simp only [List.map_cons, List.cons.injEq, List.forall₂_cons, ih later rest' later',
            fields, ne_eq, reduceCtorEq, not_false_eq_true, forall_const]
          constructor
          · rintro ⟨⟨names, cells⟩, others, _⟩
            exact ⟨⟨cells, others⟩, names⟩
          · rintro ⟨⟨cells, others⟩, names⟩
            exact ⟨⟨names, cells⟩, others, fun _ => names⟩

/--
The text is a document of the rows, for either result set, and different rows have
different texts, exactly when neither holds a character that would have to be escaped
and they differ in more than nulls and strings `"NULL"`.
-/
theorem texts_tell_results_apart (tableName : Option (List Char)) (result other : ResultSet) :
    IsDocument tableName result ∧ IsDocument tableName other ∧
        ToldApart tableName result other ↔
      Spellable tableName result ∧ Spellable tableName other ∧ ¬ NullsConfused result other := by
  rw [isDocument_iff, isDocument_iff]
  refine and_congr_right fun plain => and_congr_right fun plain' => ?_
  unfold ToldApart
  rw [getString_mPResult, getString_mPResult, mPResult_of_spellable plain,
    mPResult_of_spellable plain']
  constructor
  · rintro told ⟨names, distinct, differ, confused⟩
    have fields := (fields_eq_iff result other).mpr ⟨confused, fun _ => names⟩
    exact told distinct (names ▸ distinct) differ (by rw [fields])
  · intro clear distinct distinct' differ same
    have fields := tableText_injective ((spellable_iff _ _).mp plain).2
      ((spellable_iff _ _).mp plain').2 same
    obtain ⟨confused, names⟩ := (fields_eq_iff result other).mp fields
    have some_row : result.rows ≠ [] := by
      intro nothing
      rw [nothing] at confused differ
      exact differ (List.forall₂_nil_left_iff.mp confused).symm
    exact clear ⟨names some_row, distinct, differ, confused⟩

/-- One column and one row. -/
def oneColumn (cell : Option (List Char)) : ResultSet :=
  { oneCell with
    rows := [[cell]]
    rectangular := by simp [oneCell] }

/-- A null cell and the string `"NULL"` have the same text, and the text of a quote is no
JSON text of it. -/
theorem null_and_quote_misread :
    ¬ ToldApart (some "t".toList) (oneColumn none) (oneColumn (some "NULL".toList)) ∧
      ¬ IsDocument (some "t".toList) (oneColumn (some ['"'])) := by
  constructor
  · intro told
    exact told (by decide) (by decide) (by decide) (by decide)
  · rw [isDocument_iff]
    rintro ⟨_, rows⟩
    obtain ⟨_, cells⟩ := rows [some ['"']] List.mem_cons_self
    have quote := cells (some ['"']) List.mem_cons_self '"' List.mem_cons_self
    exact quote.2.1 rfl

end LibNet.Db
