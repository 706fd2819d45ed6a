import Mathlib

/-!
# Statements and their result sets

`sql_db`, `exec_db` and the first half of `open_db` of `db_mysql.cpp`.  The client
keeps the result set of a query until `mysql_store_result` reads it, and refuses the
next query as out of sync until then.  `sql_db` tells statements with a result set
from others by how their text begins, letter by letter; the server reads the first
keyword of the text in any case and behind any white space.
-/

namespace LibNet.Db

/-- A connection: whether a result set is unread, and whether a query was refused as
out of sync. -/
structure Connection where
  unread : Bool
  refused : Bool
  deriving DecidableEq

/-- A statement text, whether the server accepts it when it gets to see it, and
whether the client can then store its result set. -/
structure Statement where
  sql : List Char
  accepted : Bool
  storable : Bool

/-- `isspace`. -/
def isSpace (letter : Char) : Bool :=
  letter = ' ' || (9 ≤ letter.toNat && letter.toNat ≤ 13)

/-- The letters a keyword may go on with. -/
def isWordLetter (letter : Char) : Bool :=
  letter.isAlphanum || letter = '_' || letter = '$'

/-- The first keyword of a text, in small letters. -/
def firstKeyword (sql : List Char) : List Char :=
  ((sql.dropWhile isSpace).takeWhile isWordLetter).map Char.toLower

/-- The server answers the statement with a result set. -/
def HasResult (sql : List Char) : Prop :=
  firstKeyword sql ∈
    ["select".toList, "show".toList, "desc".toList, "describe".toList]

instance (sql : List Char) : Decidable (HasResult sql) :=
  inferInstanceAs (Decidable (_ ∈ _))

namespace Connection

/-- After `conn_db`. -/
def opened : Connection := ⟨false, false⟩

/-- `mysql_query`: 0, or 1 if it fails. -/
def mysqlQuery (connection : Connection) (statement : Statement) : Int × Connection :=
  if connection.unread then (1, { connection with refused := true })
  else if statement.accepted then
    (0, { connection with unread := decide (HasResult statement.sql) })
  else (1, connection)

/-- `mysql_store_result`, and whether it returns a result set. -/
def mysqlStoreResult (connection : Connection) (statement : Statement) : Bool × Connection :=
  (connection.unread && statement.storable, { connection with unread := false })

/-- `strncmp(src, word, strlen(word)) == 0`. -/
def begins (word : String) (src : List Char) : Bool :=
  src.take word.toList.length == word.toList

/-- The test of `sql_db`. -/
def opensDb (src : List Char) : Bool :=
  begins "select" src || begins "SELECT" src || begins "show" src || begins "SHOW" src ||
    begins "desc" src || begins "DESC" src

def execDb (connection : Connection) (statement : Statement) : Int × Connection :=
  let queried := connection.mysqlQuery statement
  if queried.1 ≠ 0 then (-1, queried.2) else (0, queried.2)

/-- The size of `temp_sql`. -/
def tempSqlSize : Nat := 200

/-- `open_db`.  The text is copied to `temp_sql` and read as a string there, which is
undefined unless it fits with its terminating zero. -/
def openDb (connection : Connection) (statement : Statement) : Option (Int × Connection) :=
  let queried := connection.mysqlQuery statement
  if queried.1 ≠ 0 then some (-1, queried.2)
  else if statement.sql.length < tempSqlSize then
    let stored := queried.2.mysqlStoreResult statement
    if stored.1 then some (0, stored.2) else some (-1, stored.2)
  else none

def sqlDb (connection : Connection) (statement : Statement) : Option (Int × Connection) :=
  if opensDb statement.sql then connection.openDb statement
  else some (connection.execDb statement)

end Connection

/-! ## Staying in sync -/

/-- No result set is unread and no query was refused. -/
def Connection.Synced (connection : Connection) : Prop :=
  connection.unread = false ∧ connection.refused = false

/-- Every one of the calls returns and leaves the connection in sync. -/
def StaysSynced (connection : Connection) : List Statement → Prop
  | [] => True
  | statement :: rest =>
      match connection.sqlDb statement with
      | none => False
      | some (_, next) => next.Synced ∧ StaysSynced next rest

/-- A statement is refused by the server, or goes to `open_db` and fits into
`temp_sql`, or goes to `exec_db` and has no result set. -/
def Statement.Suits (statement : Statement) : Prop :=
  statement.accepted = true →
    if Connection.opensDb statement.sql then statement.sql.length < Connection.tempSqlSize
    else ¬ HasResult statement.sql

namespace Connection

/-- A connection in sync queries the server. -/
theorem mysqlQuery_opened (statement : Statement) :
    opened.mysqlQuery statement =
      if statement.accepted then (0, ⟨decide (HasResult statement.sql), false⟩)
      else (1, opened) := rfl

/-- `exec_db` leaves the result set of an accepted statement unread. -/
theorem execDb_synced_iff (statement : Statement) :
    (opened.execDb statement).2.Synced ↔
      (statement.accepted = true → ¬ HasResult statement.sql) := by
  unfold execDb
  rw [mysqlQuery_opened]
  cases statement.accepted with
  | false => simp [Synced, opened]
  | true => simp [Synced]

/-- `open_db` reads the result set if it gets that far. -/
theorem openDb_synced_iff (statement : Statement) :
    (∃ ret next, opened.openDb statement = some (ret, next) ∧ next.Synced) ↔
      (statement.accepted = true → statement.sql.length < tempSqlSize) := by
  unfold openDb
  rw [mysqlQuery_opened]
  cases statement.accepted with
  | false => simp [Synced, opened]
  | true =>
      by_cases fits : statement.sql.length < tempSqlSize
      · refine iff_of_true ?_ fun _ => fits
        simp only [fits, if_true, ne_eq, not_true_eq_false, if_false, mysqlStoreResult]
        split
        · exact ⟨0, opened, rfl, rfl, rfl⟩
        · exact ⟨-1, opened, rfl, rfl, rfl⟩
      · simp [fits]

end Connection

/-- A connection in sync is as `conn_db` left it. -/
theorem Connection.Synced.eq_opened {connection : Connection} (synced : connection.Synced) :
    connection = .opened := by
  cases connection with
  | mk unread refused =>
      obtain ⟨rfl, rfl⟩ := synced
      rfl

/-- One call from a connection in sync. -/
theorem sqlDb_synced_iff (statement : Statement) :
    (∃ ret next, Connection.opened.sqlDb statement = some (ret, next) ∧ next.Synced) ↔
      statement.Suits := by
  unfold Connection.sqlDb Statement.Suits
  split
  · exact Connection.openDb_synced_iff statement
  · rw [← Connection.execDb_synced_iff statement]
    constructor
    · rintro ⟨ret, next, called, synced⟩
      rw [Option.some.inj called]
      exact synced
    · exact fun synced => ⟨_, _, rfl, synced⟩

/--
On a connection that `conn_db` has just opened, every one of a sequence of calls of
`sql_db` leaves no result set unread, and no query is refused as out of sync, if and
only if every statement the server accepts suits its route: one that begins with one
of the six words of `sql_db` is shorter than 200 bytes, and any other has none of the
keywords that come with a result set.
-/
theorem stays_synced_iff (statements : List Statement) :
    StaysSynced .opened statements ↔ ∀ statement ∈ statements, statement.Suits := by
  induction statements with
  | nil => simp [StaysSynced]
  | cons statement rest ih =>
      rw [List.forall_mem_cons, ← sqlDb_synced_iff]
      unfold StaysSynced
      split
      · next undefined => simp [undefined]
      · next ret next called =>
          constructor
          · rintro ⟨synced, later⟩
            rw [synced.eq_opened] at later
            exact ⟨⟨ret, next, called, synced⟩, ih.mp later⟩
          · rintro ⟨⟨sameRet, same, calledToo, synced⟩, later⟩
            rw [called] at calledToo
            cases calledToo
            refine ⟨synced, ?_⟩
            rw [synced.eq_opened]
            exact ih.mpr later

/-- `Select 1` goes to `exec_db`, and its result set is in the way of the statement
after it. -/
theorem capital_select_unread :
    ¬ StaysSynced .opened [⟨"Select 1".toList, true, true⟩] ∧
      ((Connection.opened.execDb ⟨"Select 1".toList, true, true⟩).2.sqlDb
        ⟨"delete from t".toList, true, true⟩) = some (-1, ⟨true, true⟩) := by
  constructor
  · intro stays
    have called : Connection.opened.sqlDb ⟨"Select 1".toList, true, true⟩ =
        some (0, ⟨true, false⟩) := by decide
    unfold StaysSynced at stays
    rw [called] at stays
    cases stays.1.1
  · decide

end LibNet.Db
