import Mathlib

/-!
# The connection handle of `MyDB`

`MyDB` of `db_mysql.h` and `db_mysql.cpp`, as far as its connection goes: the
handle `m_mysql` and the pointer `m_connection`, which the constructor does not
set.  Every call of the client library is recorded.  `mysql_close` frees a handle,
so what counts is whether a handle was initialised or opened since.
-/

namespace LibNet.Db

/-- The address of a handle. -/
abbrev Address := Nat

/-- The calls of the client library; a connection attempt succeeds or fails. -/
inductive MysqlCall where
  | init (handle : Address)
  | realConnect (handle : Address) (ok : Bool)
  | query (handle : Address) (sql : String)
  | close (handle : Address)
  deriving DecidableEq

/-- The address of `m_mysql`, the pointer `m_connection`, null if `none`, and the
calls made so far, the latest first. -/
structure MyDB where
  mMysql : Address
  mConnection : Option Address
  calls : List MysqlCall

/-- The operations on the connection; `conn_db` with the outcome of its attempt. -/
inductive DbOp where
  | initDb
  | connDb (ok : Bool)
  | disconnDb
  deriving DecidableEq

namespace MyDB

/-- A new object: the pointer is whatever the memory held. -/
def new (mMysql : Address) (mConnection : Option Address) : MyDB := ⟨mMysql, mConnection, []⟩

def call (db : MyDB) (made : MysqlCall) : MyDB := { db with calls := made :: db.calls }

/-- `if (m_connection) mysql_close(m_connection)`. -/
def closeConnection (db : MyDB) : MyDB :=
  match db.mConnection with
  | none => db
  | some handle => db.call (.close handle)

def initDb (db : MyDB) : MyDB := db.call (.init db.mMysql)

/-- `conn_db`; after a successful attempt `exec_db` sets the character set. -/
def connDb (db : MyDB) (ok : Bool) : MyDB :=
  let tried := db.closeConnection.call (.realConnect db.mMysql ok)
  if ok then
    { tried with mConnection := some db.mMysql }.call (.query db.mMysql "set names utf8;")
  else { tried with mConnection := none }

def disconnDb (db : MyDB) : MyDB := { db.closeConnection with mConnection := none }

def apply (db : MyDB) : DbOp → MyDB
  | .initDb => db.initDb
  | .connDb ok => db.connDb ok
  | .disconnDb => db.disconnDb

/-- Operations one after the other. -/
def run (db : MyDB) (ops : List DbOp) : MyDB := ops.foldl apply db

@[simp] theorem run_cons (db : MyDB) (op : DbOp) (ops : List DbOp) :
    db.run (op :: ops) = (db.apply op).run ops := rfl

end MyDB

/-- The handle has been through `mysql_init` and was not closed since. -/
def Inited (handle : Address) : List MysqlCall → Prop
  | [] => False
  | .init other :: earlier => other = handle ∨ Inited handle earlier
  | .close other :: earlier => other ≠ handle ∧ Inited handle earlier
  | _ :: earlier => Inited handle earlier

/-- The handle was opened by a successful `mysql_real_connect` and not closed
since. -/
def Opened (handle : Address) : List MysqlCall → Prop
  | [] => False
  | .realConnect other ok :: earlier => (other = handle ∧ ok = true) ∨ Opened handle earlier
  | .close other :: earlier => other ≠ handle ∧ Opened handle earlier
  | _ :: earlier => Opened handle earlier

/-- Only an open handle is closed, and only an initialised one is connected. -/
def Proper (earlier : List MysqlCall) : MysqlCall → Prop
  | .close handle => Opened handle earlier
  | .realConnect handle _ => Inited handle earlier
  | _ => True

/-- Every call was proper when it was made. -/
def AllProper : List MysqlCall → Prop
  | [] => True
  | made :: earlier => Proper earlier made ∧ AllProper earlier

/-- `conn_db` and `disconn_db` close what `m_connection` points to first. -/
theorem AllProper.of_closing {db : MyDB} {op : DbOp} (closes : op ≠ .initDb)
    (proper : AllProper (db.apply op).calls) : AllProper db.closeConnection.calls := by
  cases op with
  | initDb => exact absurd rfl closes
  | connDb ok =>
      cases ok with
      | false => exact proper.2
      | true => exact proper.2.2
  | disconnDb => exact proper

/-- Operations only add calls to those made before. -/
theorem AllProper.of_apply {db : MyDB} {op : DbOp} (proper : AllProper (db.apply op).calls) :
    AllProper db.calls := by
  by_cases inits : op = .initDb
  · subst inits
    exact proper.2
  · have closing := AllProper.of_closing inits proper
    unfold MyDB.closeConnection at closing
    split at closing
    · exact closing
    · exact closing.2

theorem AllProper.of_run {db : MyDB} {ops : List DbOp} (proper : AllProper (db.run ops).calls) :
    AllProper db.calls := by
  induction ops generalizing db with
  | nil => exact proper
  | cons op rest ih => exact (ih proper).of_apply

/-- The operations, in this order, that an object needs before it may connect: none
while the handle is initialised and free, `init_db` once it was closed, and first
`disconn_db` as long as it is open. -/
inductive Needs (db : MyDB) : List DbOp → Prop where
  | ready (unconnected : db.mConnection = none) (inited : Inited db.mMysql db.calls) :
      Needs db []
  | closed (unconnected : db.mConnection = none) (freed : ¬ Inited db.mMysql db.calls) :
      Needs db [.initDb]
  | connected (connection : db.mConnection = some db.mMysql)
      (opened : Opened db.mMysql db.calls) : Needs db [.disconnDb, .initDb]

/-- What is still needed after an operation. -/
def needsAfter (op : DbOp) : List DbOp → List DbOp
  | [] => []
  | next :: rest => if next = op then rest else next :: rest

theorem needs_initDb {db : MyDB} {needed : List DbOp} (needs : Needs db needed) :
    Needs (db.apply .initDb) (needsAfter .initDb needed) ∧
      (AllProper (db.apply .initDb).calls ↔ AllProper db.calls) := by
  refine ⟨?_, and_iff_right trivial⟩
  cases needs with
  | ready unconnected inited => exact .ready unconnected (.inl rfl)
  | closed unconnected freed => exact .ready unconnected (.inl rfl)
  | connected connection opened => exact .connected connection opened

theorem disconnDb_unconnected {db : MyDB} (unconnected : db.mConnection = none) :
    db.apply .disconnDb = db := by
  cases db with
  | mk mMysql mConnection calls =>
      simp only at unconnected
      subst unconnected
      rfl

theorem needs_disconnDb {db : MyDB} {needed : List DbOp} (needs : Needs db needed) :
    Needs (db.apply .disconnDb) (needsAfter .disconnDb needed) ∧
      (AllProper (db.apply .disconnDb).calls ↔ AllProper db.calls) := by
  cases needs with
  | ready unconnected inited =>
      rw [disconnDb_unconnected unconnected]
      exact ⟨.ready unconnected inited, Iff.rfl⟩
  | closed unconnected freed =>
      rw [disconnDb_unconnected unconnected]
      exact ⟨.closed unconnected freed, Iff.rfl⟩
  | connected connection opened =>
      have calls : (db.apply .disconnDb).calls = .close db.mMysql :: db.calls := by
        simp only [MyDB.apply, MyDB.disconnDb, MyDB.closeConnection, connection, MyDB.call]
      have handle : (db.apply .disconnDb).mMysql = db.mMysql := by
        simp only [MyDB.apply, MyDB.disconnDb, MyDB.closeConnection, connection, MyDB.call]
      refine ⟨.closed rfl ?_, ?_⟩
      · rw [calls, handle]
        exact fun inited => inited.1 rfl
      · rw [calls]
        exact and_iff_right opened

/-- An attempt on a handle that is initialised and free. -/
theorem needs_connDb {db : MyDB} (needs : Needs db []) (ok : Bool) :
    Needs (db.apply (.connDb ok)) (if ok then [.disconnDb, .initDb] else []) ∧
      (AllProper (db.apply (.connDb ok)).calls ↔ AllProper db.calls) := by
  cases needs with
  | ready unconnected inited =>
      have closing : db.closeConnection = db := by
        simp only [MyDB.closeConnection, unconnected]
      cases ok with
      | false =>
          have after : db.apply (.connDb false) =
              ⟨db.mMysql, none, .realConnect db.mMysql false :: db.calls⟩ := by
            simp only [MyDB.apply, MyDB.connDb, closing, MyDB.call]
            rfl
          rw [after]
          exact ⟨.ready rfl inited, and_iff_right inited⟩
      | true =>
          have after : db.apply (.connDb true) = ⟨db.mMysql, some db.mMysql,
              .query db.mMysql "set names utf8;" :: .realConnect db.mMysql true :: db.calls⟩ := by
            simp only [MyDB.apply, MyDB.connDb, closing, MyDB.call]
            rfl
          rw [after]
          exact ⟨.connected rfl (.inl ⟨rfl, rfl⟩),
            (and_iff_right trivial).trans (and_iff_right inited)⟩

/-- An attempt while something is needed goes to a handle that was closed. -/
theorem not_allProper_connDb {db : MyDB} {next : DbOp} {rest : List DbOp}
    (needs : Needs db (next :: rest)) (ok : Bool) :
    ¬ AllProper (db.apply (.connDb ok)).calls := by
  have freed : ¬ Inited db.mMysql db.closeConnection.calls := by
    cases needs with
    | closed unconnected freed =>
        simp only [MyDB.closeConnection, unconnected]
        exact freed
    | connected connection opened =>
        simp only [MyDB.closeConnection, connection, MyDB.call]
        exact fun inited => inited.1 rfl
  intro proper
  cases ok with
  | false => exact freed proper.1
  | true => exact freed proper.2.1

/-! ## Sequences of operations -/

/-- Before the first attempt the needed operations come in their order. -/
def Before (needed ops : List DbOp) : Prop :=
  ∀ mid ok after, ops = mid ++ .connDb ok :: after → needed.Sublist mid

/-- Between a successful attempt and any later one the object is disconnected and
then initialised again. -/
def Renews (ops : List DbOp) : Prop :=
  ∀ earlier later, ops = earlier ++ .connDb true :: later → Before [.disconnDb, .initDb] later

theorem before_cons {needed ops : List DbOp} {op : DbOp} (other : ∀ ok, op ≠ .connDb ok) :
    Before needed (op :: ops) ↔ Before (needsAfter op needed) ops := by
  have step : ∀ mid, needed.Sublist (op :: mid) ↔ (needsAfter op needed).Sublist mid := by
    intro mid
    cases needed with
    | nil => simp only [needsAfter, List.nil_sublist]
    | cons next rest =>
        simp only [needsAfter]
        split
        · next same =>
            rw [same]
            exact List.cons_sublist_cons
        · next different =>
            constructor
            · intro sub
              cases sub with
              | cons _ later => exact later
              | cons_cons _ later => exact absurd rfl different
            · exact fun sub => sub.cons op
  constructor
  · intro before mid ok after split
    exact (step mid).mp (before (op :: mid) ok after (by rw [split, List.cons_append]))
  · intro before mid ok after split
    cases mid with
    | nil =>
        cases split
        exact absurd rfl (other ok)
    | cons first mid =>
        cases split
        exact (step mid).mpr (before mid ok after rfl)

theorem not_before_connDb {next : DbOp} {rest ops : List DbOp} {ok : Bool} :
    ¬ Before (next :: rest) (.connDb ok :: ops) := by
  intro before
  have none_before := before [] ok ops rfl
  cases none_before

theorem renews_cons {ops : List DbOp} {op : DbOp} :
    Renews (op :: ops) ↔
      (op = .connDb true → Before [.disconnDb, .initDb] ops) ∧ Renews ops := by
  constructor
  · intro renews
    refine ⟨fun connects => renews [] ops (by rw [connects, List.nil_append]), ?_⟩
    intro earlier later split
    exact renews (op :: earlier) later (by rw [split, List.cons_append])
  · rintro ⟨first, rest⟩ earlier later split
    cases earlier with
    | nil =>
        cases split
        exact first rfl
    | cons head earlier =>
        cases split
        exact rest earlier later rfl

/-- From a state with its needs known, proper use is a matter of the sequence. -/
theorem allProper_run_iff {db : MyDB} {needed : List DbOp} (needs : Needs db needed)
    (proper : AllProper db.calls) (ops : List DbOp) :
    AllProper (db.run ops).calls ↔ Before needed ops ∧ Renews ops := by
  induction ops generalizing db needed with
  | nil =>
      refine ⟨fun _ => ⟨?_, ?_⟩, fun _ => proper⟩
      · intro mid ok after split
        simp only [List.nil_eq_append_iff, reduceCtorEq, and_false] at split
      · intro earlier later split
        simp only [List.nil_eq_append_iff, reduceCtorEq, and_false] at split
  | cons op rest ih =>
      rw [MyDB.run_cons, renews_cons]
      cases op with
      | initDb =>
          obtain ⟨next, same⟩ := needs_initDb needs
          rw [before_cons (fun ok => by simp)]
          simpa using ih next (same.mpr proper)
      | disconnDb =>
          obtain ⟨next, same⟩ := needs_disconnDb needs
          rw [before_cons (fun ok => by simp)]
          simpa using ih next (same.mpr proper)
      | connDb ok =>
          cases needed with
          | cons first others =>
              constructor
              · intro properRun
                exact absurd (AllProper.of_run properRun) (not_allProper_connDb needs ok)
              · intro before
                exact absurd before.1 not_before_connDb
          | nil =>
              obtain ⟨next, same⟩ := needs_connDb needs ok
              have later := ih next (same.mpr proper)
              have nothing : ∀ ops, Before [] ops := fun ops mid ok after _ => List.nil_sublist mid
              cases ok with
              | false => simpa [nothing] using later
              | true => simpa [nothing] using later

/-- A pointer nobody set is closed by the first operation that looks at it. -/
theorem allProper_run_unset {db : MyDB} {handle : Address}
    (unset : db.mConnection = some handle) (unopened : ¬ Opened handle db.calls)
    (proper : AllProper db.calls) (ops : List DbOp) :
    AllProper (db.run ops).calls ↔ ∀ op ∈ ops, op = .initDb := by
  induction ops generalizing db with
  | nil => exact ⟨fun _ op member => (by cases member), fun _ => proper⟩
  | cons op rest ih =>
      rw [MyDB.run_cons, List.forall_mem_cons]
      by_cases inits : op = .initDb
      · subst inits
        rw [and_iff_right rfl]
        exact ih unset unopened ⟨trivial, proper⟩
      · constructor
        · intro properRun
          have closing := AllProper.of_closing inits (AllProper.of_run properRun)
          simp only [MyDB.closeConnection, unset, MyDB.call] at closing
          exact absurd closing.1 unopened
        · exact fun all => absurd all.1 inits

/--
Whatever the pointer of a new object holds, operations that begin with `init_db` use
handles properly if and only if the pointer is null or nothing but `init_db` is
called, and between a successful `conn_db` and any later one there are a
`disconn_db` and, after it, an `init_db`.
-/
theorem handles_proper_iff (mMysql : Address) (mConnection : Option Address)
    (ops : List DbOp) :
    AllProper ((MyDB.new mMysql mConnection).run (.initDb :: ops)).calls ↔
      (mConnection = none ∨ ∀ op ∈ ops, op = .initDb) ∧ Renews ops := by
  rw [MyDB.run_cons]
  cases mConnection with
  | none =>
      have ready : Needs ((MyDB.new mMysql none).apply .initDb) [] := .ready rfl (.inl rfl)
      rw [allProper_run_iff ready ⟨trivial, trivial⟩]
      exact and_congr ⟨fun _ => .inl rfl, fun _ mid _ _ _ => List.nil_sublist mid⟩ Iff.rfl
  | some handle =>
      have unopened : ¬ Opened handle ((MyDB.new mMysql (some handle)).apply .initDb).calls := id
      rw [allProper_run_unset rfl unopened ⟨trivial, trivial⟩]
      constructor
      · intro inits
        refine ⟨.inr inits, ?_⟩
        intro earlier later split
        have connects := inits (.connDb true) (by rw [split]; simp)
        cases connects
      · rintro ⟨pointer | inits, _⟩
        · cases pointer
        · exact inits

/-- The first `conn_db` closes the pointer nobody set; and with a null pointer, the
`conn_db` after `disconn_db` connects a handle that was closed. -/
theorem unset_and_closed_handles :
    ¬ AllProper ((MyDB.new 64 (some 7)).run [.initDb, .connDb true]).calls ∧
      ¬ AllProper
        ((MyDB.new 64 none).run [.initDb, .connDb true, .disconnDb, .connDb true]).calls := by
  constructor
  · rintro ⟨_, _, unopened, _⟩
    exact unopened
  · rintro ⟨_, inited, _⟩
    exact inited.1 rfl

end LibNet.Db
