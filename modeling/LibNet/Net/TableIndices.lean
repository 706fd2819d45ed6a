import LibNet.Net.ServerRuns

/-!
# Indices into the tables

`m_ready_list` has `MAX_TASK` entries, as many as there are tasks, but it is
indexed by descriptors.  Descriptors are small as long as few of them are in use;
the standard streams, the listening socket and the epoll instance take some, so
the table is overrun before the tasks run out.
-/

namespace LibNet.Net

open LibNet.Runs
open LibNet.Base

/-- An index, with the array it is used in. -/
inductive TableIndex where
  | mReadyList (index : Int)
  | mTcpTasks (index : Int)

/-- Both arrays have `MAX_TASK` entries. -/
def TableIndex.Valid : TableIndex → Prop
  | .mReadyList index => InRange index
  | .mTcpTasks index => InRange index

instance : DecidablePred TableIndex.Valid
  | .mReadyList index => inferInstanceAs (Decidable (InRange index))
  | .mTcpTasks index => inferInstanceAs (Decidable (InRange index))

namespace TcpTaskPool

variable {β γ : Type} (pool : TcpTaskPool β γ)

/-- Without a free task, `add_connect` returns before it uses one. -/
def addConnectIndices (connFd : Int) : List TableIndex :=
  if pool.isFreeTasksEmpty then []
  else if pool.getFreeTask.1 = -1 then [.mReadyList connFd]
  else [.mReadyList connFd, .mTcpTasks pool.getFreeTask.1]

def closeConnectIndices (connFd : Int) : List TableIndex :=
  [.mReadyList connFd, .mTcpTasks (pool.mReadyList connFd)]

/-- `recv_msg` sets the flag of a task, makes a message of the task at the front
of `m_recv_tasks`, and appends the first one. -/
def recvMsgIndices (fd : Int) : List TableIndex :=
  [.mReadyList fd, .mTcpTasks (pool.mReadyList fd),
    .mTcpTasks ((pool.mRecvTasks ++ [pool.mReadyList fd]).headD 0),
    .mTcpTasks (pool.mReadyList fd)]

variable {pool}

/-- `add_connect` has a meaning just when its indices are valid. -/
theorem isSome_assignTask? {connFd : Int} :
    (pool.assignTask? connFd).isSome = true ↔
      ∀ index ∈ pool.addConnectIndices connFd, index.Valid := by
  unfold assignTask? addConnectIndices
  by_cases empty : pool.isFreeTasksEmpty
  · simp [empty]
  · by_cases inside : InRange connFd
    · by_cases none : pool.getFreeTask.1 = -1
      · simp [empty, inside, none, TableIndex.Valid]
      · by_cases known : InRange pool.getFreeTask.1
        · simp [empty, inside, none, known, TableIndex.Valid]
        · simp [empty, inside, none, known, TableIndex.Valid]
    · by_cases none : pool.getFreeTask.1 = -1
      · simp [empty, inside, none, TableIndex.Valid]
      · simp [empty, inside, none, TableIndex.Valid]

/-- So has the lookup that starts the other two handlers. -/
theorem isSome_readyTask? {fd : Int} :
    (pool.readyTask? fd).isSome = true ↔
      ∀ index ∈ pool.closeConnectIndices fd, index.Valid := by
  simp [readyTask?, closeConnectIndices, TableIndex.Valid]

/-- When no other id waits in `m_recv_tasks`, `recv_msg` uses the indices of
`close_connect`. -/
theorem valid_recvMsgIndices (none_waiting : pool.mRecvTasks = []) {fd : Int} :
    (∀ index ∈ pool.recvMsgIndices fd, index.Valid) ↔
      ∀ index ∈ pool.closeConnectIndices fd, index.Valid := by
  simp [recvMsgIndices, closeConnectIndices, none_waiting, TableIndex.Valid]

end TcpTaskPool

variable {server after : Server} {action : Action}

inductive Handler where
  | addConnect (connFd : Int)
  | closeConnect (connFd : Int)
  | recvMsg (fd : Int)

def Handler.indices {β γ : Type} (pool : TcpTaskPool β γ) : Handler → List TableIndex
  | .addConnect connFd => pool.addConnectIndices connFd
  | .closeConnect connFd => pool.closeConnectIndices connFd
  | .recvMsg fd => pool.recvMsgIndices fd

/-- The descriptor is not in use. -/
def Server.Unused (server : Server) (fd : Int) : Prop :=
  0 ≤ fd ∧ fd ∉ server.live ∧ fd ∉ server.reserved

/-- The descriptor is the lowest one that is not in use. -/
def Server.Lowest (server : Server) (fd : Int) : Prop :=
  server.Unused fd ∧ ∀ other, server.Unused other → fd ≤ other

/-- The event loop is about to run the handler; `accept` returns the lowest
descriptor that is not in use. -/
inductive Begins (server : Server) : Handler → Prop where
  | addConnect (event : Event) (connFd : Int) (next : server.loop.nextEvent = some event)
      (noHup : event.hup = false) (listens : event.fd = server.pool.mListenFd)
      (waits : server.accepted < server.connected) (lowest : server.Lowest connFd) :
      Begins server (.addConnect connFd)
  | closeConnect (event : Event) (next : server.loop.nextEvent = some event)
      (hup : event.hup = true) : Begins server (.closeConnect event.fd)
  | recvMsg (event : Event) (next : server.loop.nextEvent = some event)
      (noHup : event.hup = false) (other : event.fd ≠ server.pool.mListenFd) :
      Begins server (.recvMsg event.fd)

/-- `accept` returns the lowest descriptor that is not in use. -/
def AcceptsLowest (server : Server) (action : Action) : Prop :=
  ∀ connFd, action = .accept (some connFd) → server.Lowest connFd

theorem mem_events_of_nextEvent {loop : Loop} {event : Event}
    (next : loop.nextEvent = some event) : event ∈ loop.events := by
  cases loop with
  | handle events =>
      cases events with
      | nil => cases next
      | cons first rest =>
          cases next
          exact List.mem_cons_self ..
  | append taskId fd events => cases next
  | clean delSubscript connFd events => cases next
  | finish delSubscript connFd events => cases next

/-- The handlers of a connection find its descriptor and its task in range. -/
theorem Tables.valid_closeConnectIndices (tables : Tables server) {fd : Int}
    (member : fd ∈ server.live) : ∀ index ∈ server.pool.closeConnectIndices fd, index.Valid := by
  rw [← TcpTaskPool.isSome_readyTask?, tables.books.readyTask? member]
  rfl

/-- A free task there always is, so all depends on the descriptor. -/
theorem Tables.valid_addConnectIndices (tables : Tables server) {connFd : Int} :
    (∀ index ∈ server.pool.addConnectIndices connFd, index.Valid) ↔ InRange connFd := by
  obtain ⟨taskId, rest, free, known⟩ := tables.exists_free
  rw [← TcpTaskPool.isSome_assignTask?]
  constructor
  · intro defined
    by_contra outside
    rw [server.pool.assignTask?_of_outside free outside] at defined
    cases defined
  · intro inside
    rw [server.pool.assignTask?_of_free free inside known]
    rfl

/-- The lowest descriptor is in range when any is. -/
theorem Server.Lowest.inRange_iff {connFd : Int} (lowest : server.Lowest connFd) :
    InRange connFd ↔ ∃ fd, server.Unused fd ∧ fd < maxTask := by
  constructor
  · intro inside
    exact ⟨connFd, lowest.1, inside.2⟩
  · rintro ⟨fd, unused, below⟩
    exact ⟨lowest.1.1, Int.lt_of_le_of_lt (lowest.2 fd unused) below⟩

/--
Whenever the event loop starts a handler, in any run, every index the handler
uses is valid, but for one case: `add_connect` with all descriptors below
`MAX_TASK` in use.
-/
theorem indices_valid_iff (reached : Net.server.Reachable server) {handler : Handler}
    (begins : Begins server handler) :
    (∀ index ∈ handler.indices server.pool, index.Valid) ↔
      ∀ connFd, handler = .addConnect connFd → ∃ fd, server.Unused fd ∧ fd < maxTask := by
  have tables := reachable_tables reached
  cases begins with
  | addConnect event connFd next noHup listens waits lowest =>
      refine tables.valid_addConnectIndices.trans (lowest.inRange_iff.trans ⟨?_, ?_⟩)
      · intro room _ _
        exact room
      · intro room
        exact room connFd rfl
  | closeConnect event next hup =>
      refine ⟨fun _ _ same => (by cases same), fun _ => tables.valid_closeConnectIndices ?_⟩
      refine (tables.agenda.reported event (mem_events_of_nextEvent next)).resolve_right ?_
      rintro ⟨_, noHup⟩
      rw [hup] at noHup
      cases noHup
  | recvMsg event next noHup other =>
      refine ⟨fun _ _ same => (by cases same), fun _ => ?_⟩
      refine (TcpTaskPool.valid_recvMsgIndices tables.noRecvTasks).mpr
        (tables.valid_closeConnectIndices ?_)
      exact (tables.agenda.reported event (mem_events_of_nextEvent next)).resolve_right
        fun listens => other listens.1

/-! ## A hundred descriptors -/

/-- `epoll_wait` reports the listening socket alone. -/
theorem epollWait?_listening (waits : server.loop = .handle [])
    (pending : server.pending server.pool.mListenFd = true) :
    server.epollWait? [server.pool.mListenFd] = some { server with
      loop := .handle [⟨server.pool.mListenFd, false⟩]
      listenEdge := false } := by
  simp [Server.epollWait?, waits, maxEvents, pending, Server.event]

/-- `add_connect` gives the top of the stack to a new descriptor in range. -/
theorem accept?_eq (reports : server.loop = .handle [⟨server.pool.mListenFd, false⟩])
    (waits : server.accepted < server.connected) {connFd taskId : Int} {rest : List Int}
    (unused : server.Unused connFd) (inside : InRange connFd)
    (free : server.pool.mFreeTasks = taskId :: rest) (known : InRange taskId) :
    server.accept? (some connFd) = some { server with
      pool := { server.pool with
        mFreeTasks := rest
        mReadyList := Function.update server.pool.mReadyList connFd taskId
        mTcpTasks := Function.update server.pool.mTcpTasks taskId
          ((server.task taskId).setFd connFd) }
      loop := .handle []
      live := connFd :: server.live
      connAt := Function.update server.connAt connFd server.accepted
      conns := Function.update server.conns server.accepted
        { server.conns server.accepted with edge := true }
      accepted := server.accepted + 1 } := by
  obtain ⟨nonnegative, fresh, unreserved⟩ := unused
  simp [Server.accept?, reports, nonnegative, fresh, unreserved, waits, TcpTaskPool.addConnect?,
    server.pool.assignTask?_of_free free inside known]

/-- A client connects to a server that waits in `epoll_wait`, and its handshake
is reported. -/
theorem exists_announced (reached : Net.server.ReachableUnder AcceptsLowest server)
    (waits : server.loop = .handle []) (counted : server.accepted ≤ server.connected) :
    ∃ next, Net.server.ReachableUnder AcceptsLowest next ∧
      next.loop = .handle [⟨next.pool.mListenFd, false⟩] ∧ next.accepted < next.connected ∧
      next.pool = server.pool ∧ next.live = server.live ∧ next.reserved = server.reserved := by
  let middle : Server := { server with connected := server.connected + 1, listenEdge := true }
  have connects : Net.server.step? server .connect = some middle := rfl
  have pending : middle.pending server.pool.mListenFd = true := by
    simp [middle, Server.pending, Nat.lt_succ_of_le counted]
  have reports : Net.server.step? middle (.epollWait [server.pool.mListenFd]) = some _ :=
    epollWait?_listening waits pending
  have connected : Net.server.ReachableUnder AcceptsLowest middle :=
    .step reached (fun _ none => by cases none) connects
  exact ⟨_, .step connected (fun _ none => by cases none) reports, rfl,
    Nat.lt_succ_of_le counted, rfl, rfl, rfl⟩

/-- The client is given the lowest descriptor, if that is in range. -/
theorem exists_accepted (reached : Net.server.ReachableUnder AcceptsLowest server)
    (reports : server.loop = .handle [⟨server.pool.mListenFd, false⟩])
    (waits : server.accepted < server.connected) {connFd : Int} (lowest : server.Lowest connFd)
    (inside : InRange connFd) :
    ∃ next, Net.server.ReachableUnder AcceptsLowest next ∧ next.loop = .handle [] ∧
      next.accepted ≤ next.connected ∧ next.live = connFd :: server.live ∧
      next.reserved = server.reserved := by
  obtain ⟨taskId, rest, free, known⟩ := (reachable_tables reached.reachable).exists_free
  have accepts : Net.server.step? server (.accept (some connFd)) = some _ :=
    accept?_eq reports waits lowest.1 inside free known
  refine ⟨_, .step reached ?_ accepts, rfl, waits, rfl, rfl⟩
  intro other same
  cases same
  exact lowest

/-- With the first descriptors in use, the next one is the lowest that is not. -/
theorem lowest_of_crowded {count : Nat} (reserved : server.reserved = [0, 1, 2, 3, 4])
    (live : ∀ fd, fd ∈ server.live ↔ 5 ≤ fd ∧ fd < 5 + count) : server.Lowest (5 + count) := by
  refine ⟨⟨by omega, ?_, ?_⟩, ?_⟩
  · rw [live]
    omega
  · rw [reserved]
    simp only [List.mem_cons, List.not_mem_nil, or_false]
    omega
  · rintro other ⟨nonnegative, notLive, unreserved⟩
    rw [live] at notLive
    rw [reserved] at unreserved
    simp only [List.mem_cons, List.not_mem_nil, or_false] at unreserved
    omega

/-- Clients take the descriptors from 5 on, one after the other. -/
theorem exists_crowded (count : Nat) (few : count ≤ 95) :
    ∃ last, Net.server.ReachableUnder AcceptsLowest last ∧ last.loop = .handle [] ∧
      last.accepted ≤ last.connected ∧ last.reserved = [0, 1, 2, 3, 4] ∧
      ∀ fd, fd ∈ last.live ↔ 5 ≤ fd ∧ fd < 5 + count := by
  induction count with
  | zero =>
      refine ⟨.started, .start start_started, rfl, Nat.le_refl _, rfl, ?_⟩
      intro fd
      exact ⟨fun member => (by cases member), fun bounds => by omega⟩
  | succ count ih =>
      obtain ⟨server, reached, waits, counted, reserved, live⟩ := ih (by omega)
      obtain ⟨next, announced, reports, waiting, _, sameLive, sameReserved⟩ :=
        exists_announced reached waits counted
      have lowest : next.Lowest (5 + count) :=
        lowest_of_crowded (sameReserved.trans reserved) (by rwa [sameLive])
      have size : maxTask = 100 := rfl
      obtain ⟨last, accepted, waitsAgain, countedAgain, liveAfter, reservedAfter⟩ :=
        exists_accepted announced reports waiting lowest ⟨by omega, by omega⟩
      refine ⟨last, accepted, waitsAgain, countedAgain,
        reservedAfter.trans (sameReserved.trans reserved), ?_⟩
      intro fd
      rw [liveAfter, List.mem_cons, sameLive, live]
      omega

/-- The client after so many others is about to be accepted. -/
theorem exists_begins_addConnect (count : Nat) (few : count ≤ 95) :
    ∃ last, Net.server.ReachableUnder AcceptsLowest last ∧
      Begins last (.addConnect (5 + count)) ∧ last.reserved = [0, 1, 2, 3, 4] ∧
      ∀ fd, fd ∈ last.live ↔ 5 ≤ fd ∧ fd < 5 + count := by
  obtain ⟨server, reached, waits, counted, reserved, live⟩ := exists_crowded count few
  obtain ⟨last, announced, reports, waiting, _, sameLive, sameReserved⟩ :=
    exists_announced reached waits counted
  have liveStill : ∀ fd, fd ∈ last.live ↔ 5 ≤ fd ∧ fd < 5 + count := by rwa [sameLive]
  have reservedStill := sameReserved.trans reserved
  refine ⟨last, announced, ?_, reservedStill, liveStill⟩
  refine .addConnect ⟨last.pool.mListenFd, false⟩ _ ?_ rfl rfl waiting
    (lowest_of_crowded reservedStill liveStill)
  rw [reports]
  rfl

/-- The last client that fits, at descriptor 99. -/
theorem indices_valid_iff_full :
    ∃ last, Net.server.Reachable last ∧ Begins last (.addConnect 99) ∧
      ∀ index ∈ last.pool.addConnectIndices 99, index.Valid := by
  obtain ⟨last, reached, begins, reserved, live⟩ := exists_begins_addConnect 94 (by omega)
  refine ⟨last, reached.reachable, begins, ?_⟩
  refine (indices_valid_iff reached.reachable begins).mpr fun _ _ => ⟨99, ?_, by decide⟩
  refine ⟨by decide, ?_, ?_⟩
  · rw [live]
    omega
  · rw [reserved]
    decide

/-- With 95 clients at 5 to 99, the next one is entered at `m_ready_list[100]`. -/
theorem ready_list_overrun :
    ∃ last, Net.server.ReachableUnder AcceptsLowest last ∧ last.reserved = [0, 1, 2, 3, 4] ∧
      (∀ fd, fd ∈ last.live ↔ 5 ≤ fd ∧ fd < 100) ∧ Begins last (.addConnect 100) ∧
      .mReadyList 100 ∈ (Handler.addConnect 100).indices last.pool ∧
      ¬ (TableIndex.mReadyList 100).Valid := by
  obtain ⟨last, reached, begins, reserved, live⟩ := exists_begins_addConnect 95 (Nat.le_refl _)
  refine ⟨last, reached, reserved, live, begins, ?_, by decide⟩
  obtain ⟨taskId, rest, free, known⟩ := (reachable_tables reached.reachable).exists_free
  simp only [Handler.indices, TcpTaskPool.addConnectIndices, TcpTaskPool.isFreeTasksEmpty,
    TcpTaskPool.getFreeTask, free, List.isEmpty_cons, Bool.false_eq_true, if_false]
  split
  · exact List.mem_cons_self ..
  · exact List.mem_cons_self ..

end LibNet.Net
