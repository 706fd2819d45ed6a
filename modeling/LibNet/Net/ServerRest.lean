import LibNet.Net.PeerClose
import LibNet.Runs.Settle
import LibNet.Runs.Threads

/-!
# The server comes to rest

Edge-triggered epoll reports an event once, each event comes to one request at most, and a
request to one `recv_buf`.  So what peers do is worth a fixed number of steps of the event loop
and the workers, and when all is done the loop blocks in `epoll_wait` and the workers wait, for
a request or, when `close_connect` has put descriptor 0 into their task, for the standard input.
Short of that the server stops only where the source has no meaning: at a copy past the end of
an array, at an overflow of the total in `recv_buf`, or in `add_connect` with a descriptor that
`m_ready_list` has no place for.
-/

namespace LibNet.Net

open LibNet.Runs
open LibNet.Base

variable {server after : Server} {action : Action}

/-- The steps a worker may take before it is idle, failed reads apart. -/
def Reader.left : Reader → Nat
  | .idle => 0
  | .popped _ => 3
  | .reading _ _ => 2
  | .holding _ _ _ => 1

/-- An event is handled in `recv_msg`, `append`, and the four steps of the request. -/
def Loop.left : Loop → Nat
  | .handle events => 6 * events.length
  | .append _ _ events => 5 + 6 * events.length
  | .clean _ _ events => 2 + 6 * events.length
  | .finish _ _ events => 1 + 6 * events.length

/-- The open connections with something that `epoll_wait` has not reported. -/
def Server.edges (server : Server) : Nat :=
  server.live.countP fun fd => (server.conns (server.connAt fd)).edge

/-- An edge is worth its event and the report; so is a client in the accept queue, whose
connection starts with an edge. -/
def Server.left (server : Server) : Nat :=
  server.loop.left + 4 * server.mWorkqueue.length + total Reader.left server.workers +
    7 * server.edges + 7 * (server.connected - server.accepted) + 7 * server.listenEdge.toNat

/-- What a step adds to the work, itself included, when it does none: those of peers and of
the application, an interrupted `epoll_wait` and a failed `read`. -/
def Action.handed : Action → Nat
  | .connect => 15
  | .arrive _ _ => 8
  | .peerClose _ => 8
  | .peerReset _ => 8
  | .epollWait fds => if fds = [] then 1 else 0
  | .accept _ => 0
  | .loop => 0
  | .take _ => 0
  | .enter _ => 0
  | .read _ .error => 1
  | .read _ _ => 0
  | .store _ => 0
  | .pull => 1
  | .reply _ _ => 1
  | .discard _ => 1
  | .push _ _ => 1
  | .write _ _ => 1

/-- Distinct members of another list are not more than it has. -/
theorem length_le_of_nodup {α : Type} {small large : List α} (distinct : small.Nodup)
    (among : ∀ member ∈ small, member ∈ large) : small.length ≤ large.length :=
  (List.subperm_of_subset distinct among).length_le

theorem edges_le (live : after.live = server.live) (connAt : after.connAt = server.connAt)
    (edge : ∀ conn, (after.conns conn).edge = true → (server.conns conn).edge = true) :
    after.edges ≤ server.edges := by
  unfold Server.edges
  rw [live, connAt]
  exact List.countP_mono_left fun fd _ set => edge _ set

/-- A peer acts on one connection, which is at one descriptor at most. -/
theorem edges_peer (tables : Tables server) (conn : Nat) (value : Conn) :
    (server.setConn conn value).edges ≤ server.edges + 1 := by
  unfold Server.edges
  by_cases opened : ∃ fd ∈ server.live, server.connAt fd = conn
  · obtain ⟨fd, member, rfl⟩ := opened
    rw [List.countP_eq_length_filter, List.countP_eq_length_filter, ← List.length_cons (a := fd)]
    refine length_le_of_nodup (tables.books.distinct.filter _) ?_
    intro other listed
    obtain ⟨live, set⟩ := List.mem_filter.mp listed
    by_cases same : server.connAt other = server.connAt fd
    · rw [tables.connInjective other live fd member same]
      exact List.mem_cons_self ..
    · refine List.mem_cons_of_mem _ (List.mem_filter.mpr ⟨live, ?_⟩)
      simpa only [Server.setConn, Function.update_of_ne same] using set
  · refine Nat.le_succ_of_le (List.countP_mono_left fun fd member set => ?_)
    have other : server.connAt fd ≠ conn := fun same => opened ⟨fd, member, same⟩
    simpa only [Server.setConn, Function.update_of_ne other] using set

/-- A new connection starts with its edge set. -/
theorem edges_accept (tables : Tables server) {connFd : Int} (fresh : connFd ∉ server.live)
    (live : after.live = connFd :: server.live)
    (connAt : after.connAt = Function.update server.connAt connFd server.accepted)
    (conns : after.conns = Function.update server.conns server.accepted
      { server.conns server.accepted with edge := true }) :
    after.edges ≤ server.edges + 1 := by
  unfold Server.edges
  rw [live, connAt, conns, List.countP_cons]
  refine Nat.add_le_add ?_ (by split <;> omega)
  refine List.countP_mono_left fun fd member set => ?_
  have other : fd ≠ connFd := fun same => fresh (same ▸ member)
  have old : server.connAt fd ≠ server.accepted := Nat.ne_of_lt (tables.known fd member)
  simpa only [Function.update_of_ne other, Function.update_of_ne old] using set

/-- `epoll_wait` takes the edges of the connections it reports. -/
theorem edges_epollWait (tables : Tables server) {fds : List Int} (distinct : fds.Nodup)
    (pending : ∀ fd ∈ fds, server.pending fd = true)
    (live : after.live = server.live) (connAt : after.connAt = server.connAt)
    (conns : after.conns = fun conn =>
      if conn ∈ (fds.filter (· ≠ server.pool.mListenFd)).map server.connAt then
        { server.conns conn with edge := false }
      else server.conns conn) :
    after.edges + (fds.filter (· ≠ server.pool.mListenFd)).length ≤ server.edges := by
  unfold Server.edges
  rw [live, connAt, conns, List.countP_eq_length_filter, List.countP_eq_length_filter,
    ← List.length_append]
  refine length_le_of_nodup ?_ ?_
  · refine (tables.books.distinct.filter _).append (distinct.filter _) ?_
    intro fd kept reported
    have set := (List.mem_filter.mp kept).2
    dsimp only at set
    rw [if_pos (List.mem_map_of_mem reported)] at set
    cases set
  · intro fd member
    rcases List.mem_append.mp member with kept | reported
    · obtain ⟨open_, set⟩ := List.mem_filter.mp kept
      refine List.mem_filter.mpr ⟨open_, ?_⟩
      dsimp only at set
      split at set
      · cases set
      · exact set
    · obtain ⟨listed, connection⟩ := List.mem_filter.mp reported
      have connection := of_decide_eq_true connection
      have shown := pending fd listed
      refine List.mem_filter.mpr ⟨live_of_pending shown connection, ?_⟩
      rw [Server.pending, if_neg connection, Bool.and_eq_true, Bool.and_eq_true] at shown
      exact shown.2.1

/-- The listening socket is reported once at most, and then its edge is taken. -/
theorem length_reported {fds : List Int} (distinct : fds.Nodup)
    (pending : ∀ fd ∈ fds, server.pending fd = true) :
    fds.length + (server.listenEdge && decide (server.pool.mListenFd ∉ fds)).toNat ≤
      (fds.filter (· ≠ server.pool.mListenFd)).length + server.listenEdge.toNat := by
  by_cases listens : server.pool.mListenFd ∈ fds
  · have edge : server.listenEdge = true := by
      have shown := pending _ listens
      rw [Server.pending, if_pos rfl, Bool.and_eq_true] at shown
      exact shown.1
    have bound : fds.length ≤
        (server.pool.mListenFd :: fds.filter (· ≠ server.pool.mListenFd)).length := by
      refine length_le_of_nodup distinct fun fd member => ?_
      by_cases same : fd = server.pool.mListenFd
      · rw [same]
        exact List.mem_cons_self ..
      · exact List.mem_cons_of_mem _ (List.mem_filter.mpr ⟨member, decide_eq_true same⟩)
    rw [List.length_cons] at bound
    simpa [edge, listens] using bound
  · have bound : fds.length ≤ (fds.filter (· ≠ server.pool.mListenFd)).length := by
      refine length_le_of_nodup distinct fun fd member => ?_
      exact List.mem_filter.mpr
        ⟨member, decide_eq_true fun same => listens (same ▸ member)⟩
    simpa [listens] using bound

/-! ## Every step does some of it -/

/-- What a peer does to a connection is worth an edge. -/
theorem left_setConn_lt (tables : Tables server) (conn : Nat) (value : Conn) :
    (server.setConn conn value).left < server.left + 8 := by
  have edges := edges_peer tables conn value
  simp only [Server.left]
  simp only [Server.setConn] at edges ⊢
  omega

theorem PeerStep.left_lt (step : PeerStep server action after) (tables : Tables server) :
    after.left < server.left + action.handed := by
  cases step with
  | connect =>
      have edges : server.edges = Server.edges
        { server with connected := server.connected + 1, listenEdge := true } := rfl
      simp only [Server.left, ← edges, Action.handed, Bool.toNat_true]
      omega
  | arrive conn bytes known someBytes => exact left_setConn_lt tables conn _
  | peerClose conn known => exact left_setConn_lt tables conn _
  | peerReset conn known => exact left_setConn_lt tables conn _

theorem AppStep.left_lt (step : AppStep server action after) :
    after.left < server.left + action.handed := by
  have same := step.sameTables
  have edges : after.edges ≤ server.edges := by
    refine edges_le same.1.live same.1.connAt fun conn set => ?_
    obtain ⟨wire, changed⟩ := step.conns conn
    rwa [changed] at set
  have rest : after.mWorkqueue = server.mWorkqueue ∧ after.workers = server.workers ∧
      after.connected = server.connected ∧ after.listenEdge = server.listenEdge ∧
      action.handed = 1 := by
    cases step <;> exact ⟨rfl, rfl, rfl, rfl, rfl⟩
  obtain ⟨queue, workers, connected, listenEdge, handed⟩ := rest
  simp only [Server.left, same.2, same.1.accepted, queue, workers, connected, listenEdge, handed]
  omega

/-- A worker moves on and may take a request off the queue. -/
theorem left_worker_lt {worker : Fin threadNumber} {reader : Reader} {handed : Nat}
    (loop : after.loop = server.loop) (edges : after.edges ≤ server.edges)
    (clients : after.connected - after.accepted = server.connected - server.accepted)
    (listenEdge : after.listenEdge = server.listenEdge)
    (workers : after.workers = Function.update server.workers worker reader)
    (less : 4 * after.mWorkqueue.length + reader.left <
      4 * server.mWorkqueue.length + (server.workers worker).left + handed) :
    after.left < server.left + handed := by
  have moved := total_update Reader.left server.workers worker reader
  simp only [Server.left, loop, clients, listenEdge, workers]
  omega

theorem WorkerStep.left_lt (step : WorkerStep server action after) :
    after.left < server.left + action.handed := by
  have same := step.sameTables
  have edges : after.edges ≤ server.edges := by
    refine edges_le same.1.live same.1.connAt fun conn set => ?_
    obtain ⟨rcvq, bytes, sawEof, changed⟩ := step.conns conn
    rwa [changed] at set
  cases step with
  | take worker taskId rest idle queued =>
      refine left_worker_lt rfl edges rfl rfl rfl ?_
      simp only [Server.setWorker, idle, queued, Reader.left, Action.handed, List.length_cons]
      omega
  | enter worker taskId popped =>
      refine left_worker_lt rfl edges rfl rfl rfl ?_
      simp only [Server.setWorker, Server.setTask, popped, Reader.left]
      omega
  | data worker count taskId length fd conn reads socket member opened positive available fits
      representable =>
      refine left_worker_lt rfl edges rfl rfl rfl ?_
      simp only [Server.setWorker, Server.setConn, reads, Reader.left]
      omega
  | foreign worker bytes taskId length reads fits closed representable =>
      refine left_worker_lt rfl edges rfl rfl rfl ?_
      simp only [Server.setWorker, reads, Reader.left]
      omega
  | eof worker taskId length fd conn reads socket member opened empty =>
      refine left_worker_lt rfl edges rfl rfl rfl ?_
      simp only [Server.setWorker, Server.setConn, reads, Reader.left]
      omega
  | foreignEof worker taskId length reads closed =>
      refine left_worker_lt rfl edges rfl rfl rfl ?_
      simp only [Server.setWorker, reads, Reader.left]
      omega
  | eagain worker taskId length reads empty representable =>
      refine left_worker_lt rfl edges rfl rfl rfl ?_
      simp only [Server.setWorker, reads, Reader.left]
      omega
  | error worker taskId length reads representable =>
      refine left_worker_lt rfl edges rfl rfl rfl ?_
      simp only [Server.setWorker, reads, Reader.left, Action.handed]
      omega
  | store worker taskId length bytes holds fits =>
      refine left_worker_lt rfl edges rfl rfl rfl ?_
      simp only [Server.setWorker, Server.setTask, holds, Reader.left]
      omega

/-- The event loop goes on with the connections it has. -/
theorem left_loop_lt (work : action.handed = 0) (edges : after.edges ≤ server.edges)
    (clients : after.connected - after.accepted = server.connected - server.accepted)
    (listenEdge : after.listenEdge = server.listenEdge) (workers : after.workers = server.workers)
    (less : after.loop.left + 4 * after.mWorkqueue.length <
      server.loop.left + 4 * server.mWorkqueue.length) :
    after.left < server.left + action.handed := by
  simp only [Server.left, work, clients, listenEdge, workers]
  omega

theorem left_epollWait_lt (tables : Tables server) {fds : List Int}
    (waits : server.loop = .handle []) (distinct : fds.Nodup)
    (pending : ∀ fd ∈ fds, server.pending fd = true)
    (loop : after.loop = .handle (fds.map server.event))
    (live : after.live = server.live) (connAt : after.connAt = server.connAt)
    (conns : after.conns = fun conn =>
      if conn ∈ (fds.filter (· ≠ server.pool.mListenFd)).map server.connAt then
        { server.conns conn with edge := false }
      else server.conns conn)
    (listenEdge : after.listenEdge =
      (server.listenEdge && decide (server.pool.mListenFd ∉ fds)))
    (clients : after.connected - after.accepted = server.connected - server.accepted)
    (queue : after.mWorkqueue = server.mWorkqueue) (workers : after.workers = server.workers) :
    after.left < server.left + (Action.epollWait fds).handed := by
  have taken := length_reported distinct pending
  have edges := edges_epollWait tables distinct pending live connAt conns
  have worth : 1 ≤ fds.length + (Action.epollWait fds).handed := by
    cases fds with
    | nil => exact Nat.le_refl 1
    | cons fd rest => exact Nat.le_trans (Nat.le_add_left 1 _) (Nat.le_add_right _ _)
  simp only [Server.left, waits, loop, listenEdge, clients, queue, workers, Loop.left,
    List.length_map, List.length_nil]
  omega

theorem left_accept_lt (tables : Tables server) {event : Event} {events : List Event}
    {connFd : Int} (reached : server.loop = .handle (event :: events))
    (fresh : connFd ∉ server.live) (waits : server.accepted < server.connected)
    (loop : after.loop = .handle events) (live : after.live = connFd :: server.live)
    (connAt : after.connAt = Function.update server.connAt connFd server.accepted)
    (conns : after.conns = Function.update server.conns server.accepted
      { server.conns server.accepted with edge := true })
    (connected : after.connected = server.connected)
    (accepted : after.accepted = server.accepted + 1)
    (listenEdge : after.listenEdge = server.listenEdge)
    (queue : after.mWorkqueue = server.mWorkqueue) (workers : after.workers = server.workers) :
    after.left < server.left + (Action.accept (some connFd)).handed := by
  have edges := edges_accept tables fresh live connAt conns
  simp only [Server.left, reached, loop, connected, accepted, listenEdge, queue, workers,
    Loop.left, List.length_cons, Action.handed]
  omega

theorem LoopStep.left_lt (step : LoopStep server action after) (tables : Tables server) :
    after.left < server.left + action.handed := by
  cases step with
  | epollWait fds waits distinct pending =>
      exact left_epollWait_lt tables waits distinct pending rfl rfl rfl rfl rfl rfl rfl rfl
  | acceptFailed event events reached noHup listens =>
      refine left_loop_lt rfl (Nat.le_refl _) rfl rfl rfl ?_
      simp [reached, Loop.left]
  | accept event events connFd taskId rest reached noHup listens inside fresh unreserved waits
      free =>
      exact left_accept_lt tables reached fresh waits rfl rfl rfl rfl rfl rfl rfl rfl rfl
  | close event events reached hup member =>
      refine left_loop_lt rfl (Nat.le_refl _) rfl rfl rfl ?_
      simp [reached, Loop.left]
      omega
  | recv event events reached noHup member =>
      refine left_loop_lt rfl (Nat.le_refl _) rfl rfl rfl ?_
      simp [reached, Loop.left]
      omega
  | append taskId fd events reached =>
      refine left_loop_lt rfl (Nat.le_refl _) rfl rfl rfl ?_
      have queue : (enqueue maxRequests server.mWorkqueue taskId).length ≤
          server.mWorkqueue.length + 1 := by
        unfold enqueue
        split
        · exact Nat.le_succ _
        · simp
      simp only [reached, Loop.left]
      omega
  | clean delSubscript connFd events reached =>
      refine left_loop_lt rfl (Nat.le_refl _) rfl rfl rfl ?_
      simp [reached, Loop.left]
  | finish delSubscript connFd events reached =>
      refine left_loop_lt rfl ?_ rfl rfl rfl ?_
      · exact List.Sublist.countP_le (List.erase_sublist ..)
      · simp [reached, Loop.left]

theorem ServerStep.left_lt (step : ServerStep server action after) (tables : Tables server) :
    after.left < server.left + action.handed := by
  cases step with
  | peer step => exact step.left_lt tables
  | loop step => exact step.left_lt tables
  | worker step => exact step.left_lt
  | app step => exact step.left_lt

/-! ## When nothing can be done -/

/-- What the event loop and the workers do without help: `accept` does not fail, and nobody has
to give descriptor 0 something to read. -/
def Unaided (server : Server) : Action → Prop
  | .accept connFd => connFd.isSome = true
  | .read worker _ => ∀ taskId ∈ (server.workers worker).wants, (server.task taskId).mSocket ≠ 0
  | _ => True

/-- The descriptor that the next `accept` returns is not below `MAX_TASK`, and `add_connect`
writes behind the end of `m_ready_list`. -/
structure NoRoom (server : Server) : Prop where
  listens : ∃ event ∈ server.loop.nextEvent, event.fd = server.pool.mListenFd
  waits : server.accepted < server.connected
  used : ∀ fd, InRange fd → fd ∈ server.live ∨ fd ∈ server.reserved

/-- The next step of a thread has no meaning in the source: `add_undo_task` copies more bytes
than `recv_msg` has, `put_buf` more than the block has, the total of `recv_buf` is not an `int`
any more, or `m_ready_list` has no place for the next connection. -/
inductive Overrun (server : Server) : Prop where
  | message (event : Event) (events : List Event)
      (reached : server.loop = .handle (event :: events)) (member : event.fd ∈ server.live)
      (long : recvMsgSize < (server.task (server.pool.mReadyList event.fd)).getMsg.length)
  | store (worker : Fin threadNumber) (taskId length : Int) (bytes : List Octet)
      (holds : server.workers worker = .holding taskId length bytes)
      (long : bufferSize < ((server.task taskId).recvStore length bytes).copied)
  | total (worker : Fin threadNumber) (taskId length : Int)
      (reads : server.workers worker = .reading taskId length) (low : length - 1 < intMin)
  | accept (full : NoRoom server)

/-- The worker is in a `read` of descriptor 0. -/
def Server.AtStdin (server : Server) (worker : Fin threadNumber) : Prop :=
  ∃ taskId length, server.workers worker = .reading taskId length ∧
    (server.task taskId).mSocket = 0

/-- The event loop is about to block in `epoll_wait` with nothing to report, and every worker
waits for a request or for the standard input; a request is left only if all of them wait
there. -/
structure Settled (server : Server) : Prop where
  events : server.loop.events = []
  handling : server.loop.handling = none
  quiet : ∀ fd ∈ server.pool.mListenFd :: server.live, server.pending fd = false
  workers : ∀ worker, server.workers worker = .idle ∨ server.AtStdin worker
  queue : server.mWorkqueue = [] ∨ ∀ worker, server.AtStdin worker

theorem Settled.atRest (settled : Settled server) (nobody : ∀ worker, ¬ server.AtStdin worker) :
    AtRest server :=
  ⟨settled.events, settled.handling, settled.quiet,
    settled.queue.resolve_right fun all => nobody 0 (all 0),
    fun worker => (settled.workers worker).resolve_right (nobody worker)⟩

/-- An event of the listening socket is in hand only as long as a client waits. -/
def ListensFor (server : Server) : Prop :=
  server.pool.mListenFd ∈ server.loop.events.map Event.fd → server.accepted < server.connected

theorem LoopStep.listensFor (step : LoopStep server action after) (tables : Tables server)
    (holds : ListensFor server) : ListensFor after := by
  -- The events left are some of those before.
  have fewer : ∀ events : List Event, events <:+ server.loop.events →
      server.pool.mListenFd ∈ events.map Event.fd → server.accepted < server.connected :=
    fun events left listed => holds ((left.sublist.map Event.fd).subset listed)
  -- An event of the listening socket is the only one.
  have last : ∀ (event : Event) (events : List Event),
      server.loop = .handle (event :: events) → event.fd = server.pool.mListenFd →
      server.pool.mListenFd ∉ events.map Event.fd := by
    intro event events reached listens
    have distinct := tables.agenda.distinct
    rw [reached] at distinct
    exact listens ▸ (List.nodup_cons.mp distinct).1
  cases step with
  | epollWait fds waits distinct pending =>
      intro listed
      obtain ⟨event, member, same⟩ := List.mem_map.mp listed
      obtain ⟨fd, reported, rfl⟩ := List.mem_map.mp member
      have listens : fd = server.pool.mListenFd := same
      have edge := pending fd reported
      simp only [Server.pending, listens, if_true, Bool.and_eq_true, decide_eq_true_eq] at edge
      exact edge.2
  | acceptFailed event events reached noHup listens =>
      exact fun listed => absurd listed (last event events reached listens)
  | accept event events connFd taskId rest reached noHup listens inside fresh unreserved waits
      free => exact fun listed => absurd listed (last event events reached listens)
  | close event events reached hup member =>
      exact fewer events (by rw [reached]; exact List.suffix_cons _ _)
  | recv event events reached noHup member =>
      exact fewer events (by rw [reached]; exact List.suffix_cons _ _)
  | append taskId fd events reached => exact fewer events (by rw [reached]; exact List.suffix_rfl)
  | clean delSubscript connFd events reached =>
      exact fewer events (by rw [reached]; exact List.suffix_rfl)
  | finish delSubscript connFd events reached =>
      exact fewer events (by rw [reached]; exact List.suffix_rfl)

theorem reachable_listensFor (reached : Net.server.Reachable server) : ListensFor server := by
  refine server_invariant ?_ ?_ reached
  · intro mListenFd mEpollFd reserved block listed
    cases listed
  · intro before action after earlier holds _ step
    cases step with
    | peer step =>
        cases step with
        | connect => exact fun listed => (holds listed).trans (Nat.lt_succ_self _)
        | _ => exact holds
    | loop step => exact step.listensFor (reachable_tables earlier) holds
    | worker step => cases step <;> exact holds
    | app step => cases step <;> exact holds

/-- `recv_msg` comes to its `append` when the received bytes fit into a message. -/
theorem recvMsg?_ne_none {β γ : Type} (pool : TcpTaskPool β γ) {fd taskId : Int} (cause : γ)
    (found : pool.readyTask? fd = some taskId) (none_waiting : pool.mRecvTasks = [])
    (fits : (pool.mTcpTasks taskId).getMsg.length ≤ recvMsgSize) :
    pool.recvMsg? fd cause ≠ none := by
  have inside := (pool.readyTask?_eq found).2.1
  have flagged : ((pool.mTcpTasks taskId).setWrFlag readOp).getMsg.length ≤ recvMsgSize := fits
  simp [TcpTaskPool.recvMsg?, found, TcpTaskPool.addRecvTask?, TcpTaskPool.getRecvTask,
    TcpTaskPool.setTask, none_waiting, inside, TcpTaskPool.addUndoTask?, flagged]

/-- No thread has a step to take without help: a worker that reads a connection has none for
some outcome of its `read` other than an error. -/
structure Stuck (server : Server) : Prop where
  epollWait : ∀ fd, server.epollWait? [fd] = none
  accept : ∀ fd, server.accept? (some fd) = none
  loop : server.loop? = none
  take : ∀ worker, server.take? worker = none
  enter : ∀ worker, server.enter? worker = none
  read : ∀ worker taskId length, server.workers worker = .reading taskId length →
    (server.task taskId).mSocket ≠ 0 →
    ∃ call result next, server.kernelRead? (server.task taskId).mSocket call =
      some (result, next) ∧ result ≠ .error ∧ server.read? worker call = none
  store : ∀ worker, server.store? worker = none

theorem Stuck.quiet (stuck : Stuck server) (waits : server.loop = .handle []) (fd : Int) :
    server.pending fd = false := by
  have refused := stuck.epollWait fd
  by_contra pending
  have pending : server.pending fd = true := by simpa using pending
  simp [Server.epollWait?, waits, pending, maxEvents] at refused

/-- `accept` goes on as long as there is a descriptor that `m_ready_list` has a place for. -/
theorem Stuck.noRoom (stuck : Stuck server) (tables : Tables server) {event : Event}
    {events : List Event} (reached : server.loop = .handle (event :: events))
    (noHup : event.hup = false) (listens : event.fd = server.pool.mListenFd)
    (waits : server.accepted < server.connected) : NoRoom server where
  listens := ⟨event, by rw [reached]; rfl, listens⟩
  waits := waits
  used := by
    intro fd inside
    by_contra unused
    obtain ⟨fresh, unreserved⟩ := not_or.mp unused
    obtain ⟨taskId, rest, free, known⟩ := tables.exists_free
    have refused := stuck.accept fd
    simp [Server.accept?, reached, noHup, listens, inside.1, fresh, unreserved, waits,
      TcpTaskPool.addConnect?, server.pool.assignTask?_of_free free inside known] at refused

/-- The event loop goes on inside its handlers, unless an array is overrun. -/
theorem Stuck.waits (stuck : Stuck server) (tables : Tables server) (holds : ListensFor server)
    (fine : ¬ Overrun server) : server.loop = .handle [] := by
  have refused := stuck.loop
  cases place : server.loop with
  | append taskId fd events => simp [Server.loop?, place] at refused
  | clean delSubscript connFd events => simp [Server.loop?, place] at refused
  | finish delSubscript connFd events =>
      simp [Server.loop?, place, TcpTaskPool.addCloseTask?_eq] at refused
  | handle events =>
      cases events with
      | nil => rfl
      | cons event events =>
          exfalso
          have reported := tables.agenda.reported event (by rw [place]; exact List.mem_cons_self ..)
          cases hup : event.hup with
          | true =>
              have member : event.fd ∈ server.live :=
                reported.resolve_right fun listens => by rw [hup] at listens; cases listens.2
              simp [Server.loop?, place, hup, tables.books.readyTask? member] at refused
          | false =>
              rcases reported with member | ⟨listens, _⟩
              · have connection : event.fd ≠ server.pool.mListenFd :=
                  fun same => tables.listen_not_live (same ▸ member)
                have fits : (server.task (server.pool.mReadyList event.fd)).getMsg.length ≤
                    recvMsgSize :=
                  Nat.le_of_not_lt fun long => fine (.message event events place member long)
                obtain ⟨result, made⟩ := Option.ne_none_iff_exists'.mp
                  (recvMsg?_ne_none server.pool (.read (server.connAt event.fd))
                    (tables.books.readyTask? member) tables.noRecvTasks fits)
                simp [Server.loop?, place, hup, connection, made] at refused
              · have waits := holds (by rw [place, ← listens]; exact List.mem_cons_self ..)
                exact fine (.accept (stuck.noRoom tables place hup listens waits))

/-- A worker goes on until it is idle or has to read descriptor 0, unless its total or its bytes
do not fit. -/
theorem Stuck.idle (stuck : Stuck server) (tables : Tables server) (fine : ¬ Overrun server)
    (worker : Fin threadNumber) : server.workers worker = .idle ∨ server.AtStdin worker := by
  cases place : server.workers worker with
  | idle => exact .inl rfl
  | popped taskId =>
      have refused := stuck.enter worker
      have flag : TcpSocket.process (server.task taskId).getWrFlag = .recvBuf := by
        rw [TcpSocket.getWrFlag, tables.flag taskId]
        rfl
      simp [Server.enter?, place, flag] at refused
  | reading taskId length =>
      refine .inr ⟨taskId, length, place, ?_⟩
      by_contra connection
      obtain ⟨call, result, next, came, good, refused⟩ :=
        stuck.read worker taskId length place connection
      have total : intMin ≤ length - 1 :=
        Int.not_lt.mp fun low => fine (.total worker taskId length place low)
      cases result with
      | error => exact good rfl
      | eof => simp [Server.read?, place, came, TcpSocket.recvNext] at refused
      | eagain => simp [Server.read?, place, came, TcpSocket.recvNext, total] at refused
      | data bytes =>
          have grown : intMin ≤ length + bytes.length := by omega
          simp [Server.read?, place, came, TcpSocket.recvNext, grown] at refused
  | holding taskId length bytes =>
      have refused := stuck.store worker
      have fits : ((server.task taskId).recvStore length bytes).copied ≤ bufferSize :=
        Nat.le_of_not_lt fun long => fine (.store worker taskId length bytes place long)
      simp [Server.store?, place, fits] at refused

theorem Stuck.settled (stuck : Stuck server) (tables : Tables server) (holds : ListensFor server)
    (fine : ¬ Overrun server) : Settled server := by
  have loop := stuck.waits tables holds fine
  have workers := stuck.idle tables fine
  refine ⟨by rw [loop]; rfl, by rw [loop]; rfl, fun fd _ => stuck.quiet loop fd, workers, ?_⟩
  cases queue : server.mWorkqueue with
  | nil => exact .inl rfl
  | cons taskId rest =>
      -- An idle worker would take the request.
      refine .inr fun worker => (workers worker).resolve_left fun idle => ?_
      have refused := stuck.take worker
      simp [Server.take?, idle, queue] at refused

/-- The descriptor of a task is that of its connection, or 0. -/
theorem Tables.socket (tables : Tables server) (taskId : Int) :
    (server.task taskId).mSocket ∈ server.live ∨ (server.task taskId).mSocket = 0 := by
  by_cases owned : ∃ fd ∈ server.live, server.pool.mReadyList fd = taskId ∧
      server.loop.closing ≠ some fd
  · obtain ⟨fd, member, ready, open_⟩ := owned
    have socket := tables.assigned fd member open_
    rw [ready] at socket
    exact .inl (socket ▸ member)
  · refine .inr (tables.unassigned taskId fun fd member ready => ?_)
    by_contra open_
    exact owned ⟨fd, member, ready, open_⟩

/-- A `read` of a connection comes back without an error. -/
theorem exists_kernelRead? {fd : Int} (member : fd ∈ server.live) :
    ∃ call result next, call ≠ .error ∧ server.kernelRead? fd call = some (result, next) ∧
      result ≠ .error := by
  by_cases empty : (server.conns (server.connAt fd)).rcvq = []
  · by_cases ended : (server.conns (server.connAt fd)).fin = true ∨
        (server.conns (server.connAt fd)).hup = true
    · refine ⟨.eof, .eof, server.setConn (server.connAt fd)
        { server.conns (server.connAt fd) with sawEof := true }, by simp, ?_, by simp⟩
      simp only [Server.kernelRead?, member, empty, ended, true_and, if_true]
    · have quiet : (server.conns (server.connAt fd)).fin = false ∧
          (server.conns (server.connAt fd)).hup = false := by simpa using ended
      refine ⟨.eagain, .eagain, server, by simp, ?_, by simp⟩
      simp [Server.kernelRead?, member, empty, quiet]
  · have some_bytes : 1 ≤ (server.conns (server.connAt fd)).rcvq.length :=
      List.length_pos_iff.mpr empty
    have room : 1 ≤ bufferSize - 1 := by decide
    refine ⟨.data 1, .data (octets (server.connAt fd)
        (server.conns (server.connAt fd)).bytesRead.length
        ((server.conns (server.connAt fd)).rcvq.take 1)),
      server.setConn (server.connAt fd) { server.conns (server.connAt fd) with
        rcvq := (server.conns (server.connAt fd)).rcvq.drop 1
        bytesRead := (server.conns (server.connAt fd)).bytesRead ++
          (server.conns (server.connAt fd)).rcvq.take 1 }, by simp, ?_, by simp⟩
    simp only [Server.kernelRead?, member, some_bytes, room, Nat.one_pos, and_self, if_true]

/-- A worker that reads a connection needs no help. -/
theorem unaided_of_reading {worker : Fin threadNumber} {taskId length : Int}
    (reads : server.workers worker = .reading taskId length)
    (connection : (server.task taskId).mSocket ≠ 0) (call : ReadCall) :
    Unaided server (.read worker call) := by
  intro other wanted
  rw [reads] at wanted
  cases wanted
  exact connection

theorem stuck_of_no_work (tables : Tables server)
    (none : ∀ action : Action, Unaided server action → action.handed = 0 →
      Net.server.step? server action = none) : Stuck server where
  epollWait := fun fd => none (.epollWait [fd]) trivial rfl
  accept := fun fd => none (.accept (some fd)) rfl rfl
  loop := none .loop trivial rfl
  take := fun worker => none (.take worker) trivial rfl
  enter := fun worker => none (.enter worker) trivial rfl
  read := by
    intro worker taskId length reads connection
    obtain ⟨call, result, next, work, came, good⟩ :=
      exists_kernelRead? ((tables.socket taskId).resolve_right connection)
    refine ⟨call, result, next, came, good,
      none (.read worker call) (unaided_of_reading reads connection call) ?_⟩
    cases call <;> first | rfl | exact absurd rfl work
  store := fun worker => none (.store worker) trivial rfl

/-! ## Every run -/

/-- Whatever is asked of the steps, they make what is left smaller but for what they hand in. -/
theorem settling_under {Guard Weaker : Server → Action → Prop} {Ended : Server → Prop}
    (weaker : ∀ state action, Guard state action → Weaker state action)
    (ended : ∀ state, Net.server.ReachableUnder Weaker state →
      (∀ action, Guard state action → action.handed = 0 →
        Net.server.step? state action = none) → Ended state) :
    Settling Net.server Guard Action.handed (Net.server.ReachableUnder Weaker) Server.left
      Ended where
  kept := fun _ _ _ reached allowed taken => reached.step (weaker _ _ allowed) taken
  less := by
    intro before action after reached _ taken
    have tables := reachable_tables reached.reachable
    exact (serverStep_of_step? tables taken).left_lt tables
  settled := ended

theorem settled_or_overrun (reached : Net.server.Reachable server)
    (none : ∀ action : Action, Unaided server action → action.handed = 0 →
      Net.server.step? server action = none) : Settled server ∨ Overrun server := by
  by_cases overrun : Overrun server
  · exact .inr overrun
  · have tables := reachable_tables reached
    exact .inl ((stuck_of_no_work tables none).settled tables (reachable_listensFor reached)
      overrun)

/--
From every state the server reaches, a run has at most as many steps as were left there, plus
a fixed number for each step of a peer, one for each step of the application, each interrupted
`epoll_wait` and each failed `read`: the event loop and the workers never keep each other busy.
A run that leaves them no step to take without help, with no failing `accept` and no input for
descriptor 0, has settled or stands before a step that has no meaning in the source; and they
always come to such a state without help.
-/
theorem server_comes_to_rest (reached : Net.server.Reachable server) :
    (∀ actions last, Net.server.Path (fun _ _ => True) server actions last →
      actions.length ≤ server.left + (actions.map Action.handed).sum ∧
      ((∀ action, Unaided last action → action.handed = 0 →
        Net.server.step? last action = none) → Settled last ∨ Overrun last)) ∧
    ∃ actions last, Net.server.Path Unaided server actions last ∧
      (actions.map Action.handed).sum = 0 ∧ (Settled last ∨ Overrun last) := by
  constructor
  · intro actions last path
    have settling : Settling Net.server (fun _ _ => True) Action.handed Net.server.Reachable
        Server.left fun _ => True := settling_under (fun _ _ => id) fun _ _ _ => trivial
    have bound := settling.length_add_left_le reached path
    refine ⟨by omega, ?_⟩
    exact settled_or_overrun (path.reachableUnder reached)
  · exact (settling_under (fun _ _ _ => trivial)
      fun _ reached' => settled_or_overrun reached').exists_settled reached

/-- A client has sent a byte, its event is reported and another client waits to be accepted. -/
def busy : List Action := letIn 5 ++ [.arrive 0 [65], .connect, .epollWait [5, 3]]

theorem server_comes_to_rest_busy :
    ∃ server, Net.server.Reachable server ∧ server.loop.events = [⟨5, false⟩, ⟨3, false⟩] ∧
      ∃ actions last, Net.server.Path Unaided server actions last ∧
        (actions.map Action.handed).sum = 0 ∧ (Settled last ∨ Overrun last) := by
  obtain ⟨last, reached, ended⟩ := Machine.exists_reachableUnder_of_follow
    Net.server (fun _ _ => True) busy
    (fun server => decide (server.loop.events = [⟨5, false⟩, ⟨3, false⟩]))
    start_started (by decide)
  exact ⟨last, reached, of_decide_eq_true ended, (server_comes_to_rest reached).2⟩

end LibNet.Net
