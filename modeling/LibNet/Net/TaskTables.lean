import LibNet.Net.TcpTaskPool
import LibNet.Runs.Ledger
import LibNet.Runs.Machine

/-!
# The free stack, the descriptor table and the tasks stay in step

The event loop handles accepts and hang-ups one after the other.  A descriptor
that was closed keeps its old entry in `m_ready_list`, so what the table says is
stated for the descriptors of live connections only.
-/

namespace LibNet.Net

open LibNet.Runs
open LibNet.Base

variable {β γ : Type}

/-- The books of the pool: the ids on the free stack and the ids the table lists
for live descriptors are together all ids, each once. -/
structure Books (pool : TcpTaskPool β γ) (live : List Int) : Prop where
  ledger : Ledger TcpTaskPool.taskIds pool.mFreeTasks live pool.mReadyList
  distinct : live.Nodup
  below : ∀ fd ∈ live, InRange fd

namespace Books

variable {pool : TcpTaskPool β γ} {live : List Int}

/-- What the books are about. -/
theorem transport (books : Books pool live) {after : TcpTaskPool β γ}
    (free : after.mFreeTasks = pool.mFreeTasks) (ready : after.mReadyList = pool.mReadyList) :
    Books after live := by
  refine ⟨?_, books.distinct, books.below⟩
  rw [free, ready]
  exact books.ledger

theorem inRange_ready (books : Books pool live) {fd : Int} (member : fd ∈ live) :
    InRange (pool.mReadyList fd) :=
  (TcpTaskPool.mem_taskIds _).mp ((books.ledger.mem_iff _).mpr (.inr ⟨fd, member, rfl⟩))

theorem inRange_free (books : Books pool live) {taskId : Int}
    (free : taskId ∈ pool.mFreeTasks) : InRange taskId :=
  (TcpTaskPool.mem_taskIds _).mp ((books.ledger.mem_iff _).mpr (.inl free))

theorem readyTask? (books : Books pool live) {fd : Int} (member : fd ∈ live) :
    pool.readyTask? fd = some (pool.mReadyList fd) :=
  pool.readyTask?_of_inRange (books.below fd member) (books.inRange_ready member)

theorem injective (books : Books pool live) {first second : Int} (firstLive : first ∈ live)
    (secondLive : second ∈ live) (same : pool.mReadyList first = pool.mReadyList second) :
    first = second :=
  books.ledger.injective TcpTaskPool.nodup_taskIds firstLive secondLive same

theorem not_free (books : Books pool live) {fd : Int} (member : fd ∈ live) :
    pool.mReadyList fd ∉ pool.mFreeTasks :=
  books.ledger.not_free TcpTaskPool.nodup_taskIds member

/-- An id that is not free is that of a live descriptor. -/
theorem exists_holder (books : Books pool live) {taskId : Int} (inside : InRange taskId)
    (lent : taskId ∉ pool.mFreeTasks) : ∃ fd ∈ live, pool.mReadyList fd = taskId :=
  ((books.ledger.mem_iff _).mp ((TcpTaskPool.mem_taskIds _).mpr inside)).resolve_left lent

/-- Live descriptors leave out a descriptor below `MAX_TASK`, so an id is free. -/
theorem exists_free (books : Books pool live) {fd : Int} (inside : InRange fd)
    (fresh : fd ∉ live) :
    ∃ taskId rest, pool.mFreeTasks = taskId :: rest ∧ InRange taskId := by
  have fewer : live.length < TcpTaskPool.taskIds.length := by
    refine length_lt_of_missing books.distinct ?_ ((TcpTaskPool.mem_taskIds fd).mpr inside) fresh
    intro other member
    exact (TcpTaskPool.mem_taskIds other).mpr (books.below other member)
  cases stack : pool.mFreeTasks with
  | nil => exact (books.ledger.free_ne_nil fewer stack).elim
  | cons taskId rest =>
      refine ⟨taskId, rest, rfl, books.inRange_free ?_⟩
      rw [stack]
      exact List.mem_cons_self ..

/-- The top of the stack is entered for a new descriptor. -/
theorem assign (books : Books pool live) {fd taskId : Int} {rest : List Int}
    (inside : InRange fd) (fresh : fd ∉ live) (free : pool.mFreeTasks = taskId :: rest)
    {after : TcpTaskPool β γ} (freeAfter : after.mFreeTasks = rest)
    (readyAfter : after.mReadyList = Function.update pool.mReadyList fd taskId) :
    Books after (fd :: live) := by
  refine ⟨?_, List.nodup_cons.mpr ⟨fresh, books.distinct⟩, ?_⟩
  · have ledger := books.ledger
    rw [free] at ledger
    rw [freeAfter, readyAfter]
    exact ledger.lend fresh
  · intro other member
    rcases List.mem_cons.mp member with rfl | old
    · exact inside
    · exact books.below other old

/-- The id of a live descriptor goes back on the stack. -/
theorem release (books : Books pool live) {fd : Int} (member : fd ∈ live)
    {after : TcpTaskPool β γ}
    (freeAfter : after.mFreeTasks = pool.mReadyList fd :: pool.mFreeTasks)
    (readyAfter : after.mReadyList = pool.mReadyList) : Books after (live.erase fd) := by
  refine ⟨?_, books.distinct.erase fd, ?_⟩
  · rw [freeAfter, readyAfter]
    exact books.ledger.giveBack member
  · intro other left
    exact books.below other (List.mem_of_mem_erase left)

end Books

theorem books_init [Byte β] (mListenFd mEpollFd : Int) (block : Nat → β) :
    Books (TcpTaskPool.init mListenFd mEpollFd block : TcpTaskPool β γ) [] := by
  refine ⟨?_, List.nodup_nil, fun _ member => by cases member⟩
  unfold Ledger
  rw [List.map_nil, List.append_nil]
  exact List.reverse_perm _

/-! ## Runs of the event loop -/

/-- The pool and the descriptors of the connections that are open. -/
structure EventTables where
  pool : TcpTaskPool UInt8 Unit
  live : List Int

/-- `accept` came back with a descriptor, or a live connection hung up. -/
inductive TableEvent where
  | accept (connFd : Int)
  | hangUp (connFd : Int)
  deriving DecidableEq

def EventTables.step? (tables : EventTables) : TableEvent → Option EventTables
  | .accept connFd =>
      if 0 ≤ connFd ∧ connFd ∉ tables.live then
        match tables.pool.addConnect? (some connFd) with
        | none => none
        | some (_, pool) => some ⟨pool, connFd :: tables.live⟩
      else none
  | .hangUp connFd =>
      if connFd ∈ tables.live then
        match tables.pool.closeConnect? connFd (fun _ => 0) () with
        | none => none
        | some pool => some ⟨pool, tables.live.erase connFd⟩
      else none

/-- Runs from an initialised pool on. -/
def eventTables : Machine EventTables TableEvent where
  Start := fun tables => ∃ mListenFd mEpollFd block,
    tables = ⟨.init mListenFd mEpollFd block, []⟩
  step? := EventTables.step?

/-- Accepted descriptors are below the size of `m_ready_list`. -/
def BelowMaxTask (_ : EventTables) : TableEvent → Prop
  | .accept connFd => connFd < maxTask
  | .hangUp _ => True

instance (tables : EventTables) (event : TableEvent) : Decidable (BelowMaxTask tables event) :=
  match event with
  | .accept _ => inferInstanceAs (Decidable (_ < _))
  | .hangUp _ => inferInstanceAs (Decidable True)

/-- The books are right and every live task holds the descriptor it is listed
for. -/
structure EventTables.Consistent (tables : EventTables) : Prop where
  books : Books tables.pool tables.live
  socket : ∀ fd ∈ tables.live,
    (tables.pool.mTcpTasks (tables.pool.mReadyList fd)).mSocket = fd

theorem consistent_accept {tables after : EventTables} {connFd : Int}
    (consistent : tables.Consistent) (below : connFd < maxTask)
    (taken : tables.step? (.accept connFd) = some after) : after.Consistent := by
  have books := consistent.books
  simp only [EventTables.step?] at taken
  split at taken
  · next fresh =>
      have inside : InRange connFd := ⟨fresh.1, below⟩
      obtain ⟨taskId, rest, free, known⟩ := books.exists_free inside fresh.2
      rw [show tables.pool.addConnect? (some connFd) = _ from
        tables.pool.assignTask?_of_free free inside known] at taken
      cases taken
      refine ⟨books.assign inside fresh.2 free rfl rfl, ?_⟩
      intro fd member
      rcases List.mem_cons.mp member with rfl | old
      · simp [TcpSocket.setFd]
      · have different : fd ≠ connFd := fun same => fresh.2 (same ▸ old)
        have other : tables.pool.mReadyList fd ≠ taskId := by
          intro same
          apply books.not_free old
          rw [same, free]
          exact List.mem_cons_self ..
        simp only [Function.update_of_ne different, Function.update_of_ne other]
        exact consistent.socket fd old
  · cases taken

theorem consistent_hangUp {tables after : EventTables} {connFd : Int}
    (consistent : tables.Consistent)
    (taken : tables.step? (.hangUp connFd) = some after) : after.Consistent := by
  have books := consistent.books
  simp only [EventTables.step?] at taken
  split at taken
  · next member =>
      rw [TcpTaskPool.closeConnect?, books.readyTask? member] at taken
      cases taken
      refine ⟨books.release member rfl rfl, ?_⟩
      intro fd left
      have distinct := (books.distinct.mem_erase_iff).mp left
      have other : tables.pool.mReadyList fd ≠ tables.pool.mReadyList connFd := by
        intro same
        exact distinct.1 (books.injective distinct.2 member same)
      simp only [TcpTaskPool.pushFreeTask, TcpTaskPool.cleanBuffers, TcpTaskPool.forgetSocket,
        TcpTaskPool.setTask, Function.update_of_ne other]
      exact consistent.socket fd distinct.2
  · cases taken

theorem reachable_consistent {tables : EventTables}
    (reached : eventTables.ReachableUnder BelowMaxTask tables) : tables.Consistent := by
  refine Machine.ReachableUnder.invariant ?_ ?_ reached
  · rintro first ⟨mListenFd, mEpollFd, block, rfl⟩
    exact ⟨books_init mListenFd mEpollFd block, fun _ member => by cases member⟩
  · intro before event after _ consistent below taken
    cases event with
    | accept connFd => exact consistent_accept consistent below taken
    | hangUp connFd => exact consistent_hangUp consistent taken

/--
After any accepts of descriptors below `MAX_TASK` and any hang-ups: the free ids
are distinct, live connections have distinct ids, no id is both, together they
are the ids from 0 to `MAX_TASK-1`, the task of a live connection holds its
descriptor, and the next accept finds a free task.
-/
theorem tables_in_step {tables : EventTables}
    (reached : eventTables.ReachableUnder BelowMaxTask tables) :
    tables.pool.mFreeTasks.Nodup ∧
    (∀ first ∈ tables.live, ∀ second ∈ tables.live,
      tables.pool.mReadyList first = tables.pool.mReadyList second → first = second) ∧
    (∀ fd ∈ tables.live, tables.pool.mReadyList fd ∉ tables.pool.mFreeTasks) ∧
    (∀ taskId : Int, (taskId ∈ tables.pool.mFreeTasks ∨
      ∃ fd ∈ tables.live, tables.pool.mReadyList fd = taskId) ↔
        0 ≤ taskId ∧ taskId < maxTask) ∧
    (∀ fd ∈ tables.live,
      (tables.pool.mTcpTasks (tables.pool.mReadyList fd)).mSocket = fd) ∧
    (∀ connFd : Int, 0 ≤ connFd → connFd < maxTask → connFd ∉ tables.live →
      tables.pool.isFreeTasksEmpty = false ∧
        ∃ pool, tables.pool.addConnect? (some connFd) = some (true, pool)) := by
  have consistent := reachable_consistent reached
  have books := consistent.books
  refine ⟨books.ledger.free_nodup TcpTaskPool.nodup_taskIds, ?_, ?_, ?_, consistent.socket, ?_⟩
  · intro first firstLive second secondLive same
    exact books.injective firstLive secondLive same
  · intro fd member
    exact books.not_free member
  · intro taskId
    rw [← books.ledger.mem_iff]
    exact TcpTaskPool.mem_taskIds taskId
  · intro connFd nonnegative below fresh
    obtain ⟨taskId, rest, free, known⟩ := books.exists_free ⟨nonnegative, below⟩ fresh
    refine ⟨by simp [TcpTaskPool.isFreeTasksEmpty, free], _,
      tables.pool.assignTask?_of_free free ⟨nonnegative, below⟩ known⟩

/-- Two clients, of which the first hangs up, and a third that is given its
descriptor. -/
def recycled : List TableEvent := [.accept 5, .accept 6, .hangUp 5, .accept 5]

theorem tables_in_step_recycled :
    ∃ tables, eventTables.ReachableUnder BelowMaxTask tables ∧ tables.live = [5, 6] ∧
      (tables.pool.mTcpTasks (tables.pool.mReadyList 5)).mSocket = 5 := by
  obtain ⟨tables, reached, ended⟩ := Machine.exists_reachableUnder_of_follow
    eventTables BelowMaxTask recycled (fun tables => tables.live == [5, 6])
    ⟨3, 4, fun _ => 0, rfl⟩ (by decide)
  have live : tables.live = [5, 6] := eq_of_beq ended
  exact ⟨tables, reached, live,
    (tables_in_step reached).2.2.2.2.1 5 (by rw [live]; exact List.mem_cons_self ..)⟩

end LibNet.Net
