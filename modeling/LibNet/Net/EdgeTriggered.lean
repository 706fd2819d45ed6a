import LibNet.Net.ServerRuns

/-!
# Bytes left behind under edge-triggered epoll

Connections are registered with `EPOLLET`, so an edge that has been reported is
not reported again for the bytes that caused it.  `recv_buf` reads once, at most
`BUFFER_SIZE-1` bytes, and a request that `append` refuses is forgotten; either
way bytes may stay in the receive queue with nothing under way to read them.
None do as long as every read takes the whole queue and no request is refused.
-/

namespace LibNet.Net

open LibNet.Runs
open LibNet.Base

variable {server after : Server} {action : Action}

/-- The worker whose step reads bytes, and how many. -/
def Action.dataRead : Action → Option (Fin threadNumber × Nat)
  | .read worker (.data count) => some (worker, count)
  | _ => none

/-- The loop is about to call `append`. -/
def Loop.appending : Loop → Bool
  | .append _ _ _ => true
  | _ => false

/-- A read of bytes takes all the connection has, and `append` finds room. -/
def WholeReads (server : Server) (action : Action) : Prop :=
  (∀ read ∈ action.dataRead, ∀ taskId ∈ (server.workers read.1).wants,
    (server.conns (server.connAt (server.task taskId).mSocket)).rcvq.length = read.2) ∧
  (action.isLoop = true → server.loop.appending = true →
    server.mWorkqueue.length ≤ maxRequests)

instance (server : Server) (action : Action) : Decidable (WholeReads server action) :=
  inferInstanceAs (Decidable (_ ∧ _))

/-! ## The invariant -/

/-- Something is going to read from the connection: an edge, an event, a handler,
a queued request, or a worker before its `read`. -/
def ReadUnderWay (server : Server) (fd : Int) : Prop :=
  (server.conns (server.connAt fd)).edge = true ∨
  fd ∈ server.loop.events.map Event.fd ∨
  (∃ taskId, server.loop.handling = some (taskId, fd)) ∨
  server.pool.mReadyList fd ∈ server.mWorkqueue ∨
  ∃ worker, (server.workers worker).wants = some (server.pool.mReadyList fd)

def NothingStranded (server : Server) : Prop :=
  ∀ fd ∈ server.live, (server.conns (server.connAt fd)).rcvq ≠ [] → ReadUnderWay server fd

theorem PeerStep.nothingStranded (step : PeerStep server action after)
    (holds : NothingStranded server) : NothingStranded after := by
  obtain ⟨same, loop⟩ := step.sameTables
  have queue : after.mWorkqueue = server.mWorkqueue := by cases step <;> rfl
  have workers : after.workers = server.workers := by cases step <;> rfl
  intro fd live waiting
  unfold ReadUnderWay
  rw [same.connAt] at waiting ⊢
  rw [loop, same.ready, queue, workers]
  rcases step.edge (server.connAt fd) with unchanged | ⟨edge, _⟩
  · rw [unchanged] at waiting ⊢
    exact holds fd (same.live ▸ live) waiting
  · exact .inl edge

theorem AppStep.nothingStranded (step : AppStep server action after)
    (holds : NothingStranded server) : NothingStranded after := by
  obtain ⟨same, loop⟩ := step.sameTables
  have queue : after.mWorkqueue = server.mWorkqueue := by cases step <;> rfl
  have workers : after.workers = server.workers := by cases step <;> rfl
  intro fd live waiting
  obtain ⟨_, changed⟩ := step.conns (server.connAt fd)
  unfold ReadUnderWay
  rw [same.connAt, changed] at waiting ⊢
  rw [loop, same.ready, queue, workers]
  exact holds fd (same.live ▸ live) waiting

/-- Only reading changes the receive queue, and it takes from the front. -/
theorem WorkerStep.rcvq (step : WorkerStep server action after) (conn : Nat) :
    (after.conns conn).rcvq <:+ (server.conns conn).rcvq := by
  cases step with
  | data worker count taskId length fd other reads socket member opened positive available fits
      representable =>
      by_cases same : conn = other
      · subst same
        simp [Server.setConn, Server.setWorker, List.drop_suffix]
      · simp [Server.setConn, Server.setWorker, Function.update_of_ne same]
  | eof worker taskId length fd other reads socket member opened empty =>
      by_cases same : conn = other
      · subst same
        simp [Server.setConn, Server.setWorker]
      · simp [Server.setConn, Server.setWorker, Function.update_of_ne same]
  | _ => exact List.suffix_rfl

/-- A request leaves the queue for a worker. -/
theorem WorkerStep.dequeued (step : WorkerStep server action after) {taskId : Int}
    (queued : taskId ∈ server.mWorkqueue) :
    taskId ∈ after.mWorkqueue ∨ ∃ worker, (after.workers worker).wants = some taskId := by
  cases step with
  | take worker first rest idle queue =>
      rw [queue] at queued
      rcases List.mem_cons.mp queued with rfl | later
      · exact .inr ⟨worker, by simp [Server.setWorker, Reader.wants]⟩
      · exact .inl later
  | _ => exact .inl queued

/-- A worker that was going to read for the connection's task still is, has left
the connection without bytes, or found it being closed. -/
theorem WorkerStep.served (step : WorkerStep server action after) (tables : Tables server)
    (allowed : WholeReads server action) {worker : Fin threadNumber} {fd : Int}
    (live : fd ∈ server.live)
    (wanted : (server.workers worker).wants = some (server.pool.mReadyList fd)) :
    (after.workers worker).wants = some (server.pool.mReadyList fd) ∨
      (after.conns (server.connAt fd)).rcvq = [] ∨ server.loop.closing = some fd := by
  by_cases closes : server.loop.closing = some fd
  · exact .inr (.inr closes)
  have socket := tables.assigned fd live closes
  by_cases moved : after.workers worker = server.workers worker
  · exact .inl (moved ▸ wanted)
  -- The worker that moves is the one looked at.
  cases step with
  | take changed taskId rest idle queued =>
      obtain rfl := eq_of_update_ne moved
      rw [idle] at wanted
      cases wanted
  | enter changed taskId popped =>
      obtain rfl := eq_of_update_ne moved
      rw [popped] at wanted
      exact .inl (by simpa [Server.setWorker, Reader.wants] using wanted)
  | data changed count taskId length open_ conn reads own member opened positive available fits
      representable =>
      obtain rfl := eq_of_update_ne moved
      have whole := allowed.1 (worker, count) rfl taskId (by rw [reads]; rfl)
      rw [reads] at wanted
      cases wanted
      rw [socket] at own whole
      subst own opened
      refine .inr (.inl ?_)
      simp [Server.setConn, Server.setWorker, List.drop_eq_nil_of_le (Nat.le_of_eq whole)]
  | foreign changed bytes taskId length reads fits closed representable =>
      obtain rfl := eq_of_update_ne moved
      rw [reads] at wanted
      cases wanted
      rw [socket] at closed
      exact (closed live).elim
  | eof changed taskId length open_ conn reads own member opened empty =>
      obtain rfl := eq_of_update_ne moved
      rw [reads] at wanted
      cases wanted
      rw [socket] at own
      subst own opened
      exact .inr (.inl (by simpa [Server.setConn, Server.setWorker] using empty))
  | foreignEof changed taskId length reads closed =>
      obtain rfl := eq_of_update_ne moved
      rw [reads] at wanted
      cases wanted
      rw [socket] at closed
      exact (closed live).elim
  | eagain changed taskId length reads empty representable =>
      obtain rfl := eq_of_update_ne moved
      rw [reads] at wanted
      cases wanted
      rw [socket] at empty
      exact .inr (.inl (empty live))
  | error changed taskId length reads representable =>
      obtain rfl := eq_of_update_ne moved
      rw [reads] at wanted
      exact .inl (by simpa [Server.setWorker, Reader.wants] using wanted)
  | store changed taskId length bytes held fits =>
      obtain rfl := eq_of_update_ne moved
      rw [held] at wanted
      cases wanted

theorem WorkerStep.nothingStranded (step : WorkerStep server action after)
    (tables : Tables server) (holds : NothingStranded server)
    (allowed : WholeReads server action) : NothingStranded after := by
  obtain ⟨same, loop⟩ := step.sameTables
  intro fd stays waiting
  rw [same.live] at stays
  rw [same.connAt] at waiting
  have before : (server.conns (server.connAt fd)).rcvq ≠ [] := by
    intro empty
    have suffix := step.rcvq (server.connAt fd)
    rw [empty] at suffix
    exact waiting (List.suffix_nil.mp suffix)
  unfold ReadUnderWay
  rw [same.connAt, same.ready, loop]
  rcases holds fd stays before with edge | listed | handles | queued | ⟨worker, wanted⟩
  · obtain ⟨_, _, _, changed⟩ := step.conns (server.connAt fd)
    rw [changed]
    exact .inl edge
  · exact .inr (.inl listed)
  · exact .inr (.inr (.inl handles))
  · rcases step.dequeued queued with still | popped
    · exact .inr (.inr (.inr (.inl still)))
    · exact .inr (.inr (.inr (.inr popped)))
  · rcases step.served tables allowed stays wanted with still | empty | closes
    · exact .inr (.inr (.inr (.inr ⟨worker, still⟩)))
    · exact (waiting empty).elim
    · exact .inr (.inr (.inl (Loop.handling_of_closing closes)))

/-- While the loop handles an event of another descriptor, the read under way is
still to come, whatever the handler is. -/
theorem ReadUnderWay.past_event {fd : Int} {event : Event} {events : List Event}
    {Handled : Prop} (underWay : ReadUnderWay server fd)
    (reached : server.loop = .handle (event :: events)) (different : fd ≠ event.fd) :
    (server.conns (server.connAt fd)).edge = true ∨ fd ∈ events.map Event.fd ∨ Handled ∨
      server.pool.mReadyList fd ∈ server.mWorkqueue ∨
      ∃ worker, (server.workers worker).wants = some (server.pool.mReadyList fd) := by
  unfold ReadUnderWay at underWay
  rw [reached] at underWay
  rcases underWay with edge | listed | ⟨taskId, handles⟩ | requested
  · exact .inl edge
  · have among : fd ∈ (event :: events).map Event.fd := listed
    exact .inr (.inl ((List.mem_cons.mp among).resolve_left different))
  · cases handles
  · exact .inr (.inr (.inr requested))

theorem LoopStep.nothingStranded (step : LoopStep server action after) (tables : Tables server)
    (holds : NothingStranded server) (allowed : WholeReads server action) :
    NothingStranded after := by
  have rcvq : ∀ conn, (after.conns conn).rcvq = (server.conns conn).rcvq := by
    intro conn
    obtain ⟨_, changed⟩ := step.conns conn
    rw [changed]
  intro fd stays waiting
  rw [rcvq] at waiting
  cases step with
  | epollWait fds waits distinct pending =>
      have underWay := holds fd stays waiting
      unfold ReadUnderWay at underWay
      rw [waits] at underWay
      by_cases reported : fd ∈ fds
      · refine .inr (.inl (List.mem_map.mpr ⟨server.event fd, ?_, rfl⟩))
        exact List.mem_map_of_mem reported
      · rcases underWay with edge | listed | ⟨taskId, handles⟩ | requested
        · left
          dsimp only
          rw [if_neg (tables.unreported pending stays reported)]
          exact edge
        · cases listed
        · cases handles
        · exact .inr (.inr (.inr requested))
  | acceptFailed event events reached noHup listens =>
      have different : fd ≠ event.fd :=
        fun same => tables.listen_not_live (listens ▸ same ▸ stays)
      exact (holds fd stays waiting).past_event reached different
  | accept event events connFd taskId rest reached noHup listens inside fresh unreserved waits
      free =>
      rcases List.mem_cons.mp stays with rfl | old
      · left
        simp
      · have different : fd ≠ connFd := fun same => fresh (same ▸ old)
        have other : server.connAt fd ≠ server.accepted := Nat.ne_of_lt (tables.known fd old)
        have notListen : fd ≠ event.fd :=
          fun same => tables.listen_not_live (listens ▸ same ▸ old)
        simp only [Function.update_of_ne different] at waiting
        unfold ReadUnderWay
        simp only [Function.update_of_ne different, Function.update_of_ne other]
        exact (holds fd old waiting).past_event reached notListen
  | close event events reached hup member =>
      by_cases same : fd = event.fd
      · subst same
        exact .inr (.inr (.inl ⟨_, rfl⟩))
      · exact (holds fd stays waiting).past_event reached same
  | recv event events reached noHup member =>
      by_cases same : fd = event.fd
      · subst same
        exact .inr (.inr (.inl ⟨_, rfl⟩))
      · exact (holds fd stays waiting).past_event reached same
  | append taskId other events reached =>
      have room : ¬ server.mWorkqueue.length > maxRequests :=
        Nat.not_lt.mpr (allowed.2 rfl (by rw [reached]; rfl))
      have underWay := holds fd stays waiting
      unfold ReadUnderWay at underWay ⊢
      simp only [enqueue, if_neg room]
      rw [reached] at underWay
      rcases underWay with edge | listed | ⟨task, handles⟩ | queued | requested
      · exact .inl edge
      · exact .inr (.inl listed)
      · cases handles
        obtain ⟨_, ready, _⟩ := tables.agenda.handled taskId fd (by rw [reached]; rfl)
        rw [ready]
        exact .inr (.inr (.inr (.inl (List.mem_append_right _ (List.mem_singleton_self _)))))
      · exact .inr (.inr (.inr (.inl (List.mem_append_left _ queued))))
      · exact .inr (.inr (.inr (.inr requested)))
  | clean delSubscript connFd events reached =>
      have underWay := holds fd stays waiting
      unfold ReadUnderWay at underWay
      rw [reached] at underWay
      exact underWay
  | finish delSubscript connFd events reached =>
      obtain ⟨different, old⟩ := tables.books.distinct.mem_erase_iff.mp stays
      have underWay := holds fd old waiting
      unfold ReadUnderWay at underWay
      rw [reached] at underWay
      rcases underWay with edge | listed | ⟨task, handles⟩ | requested
      · exact .inl edge
      · exact .inr (.inl listed)
      · cases handles
        exact (different rfl).elim
      · exact .inr (.inr (.inr requested))

theorem reachable_nothingStranded
    (reached : Net.server.ReachableUnder WholeReads server) : NothingStranded server := by
  refine server_invariant ?_ ?_ reached
  · intro mListenFd mEpollFd reserved block fd live
    cases live
  · intro before action after earlier holds allowed step
    have tables := reachable_tables earlier
    cases step with
    | peer step => exact step.nothingStranded holds
    | loop step => exact step.nothingStranded tables holds allowed
    | worker step => exact step.nothingStranded tables holds allowed
    | app step => exact step.nothingStranded holds

/-- No edge of the connection is pending, none of its events is still to be
handled or being handled, and no request for its task is queued or running. -/
def LeftAlone (server : Server) (fd : Int) : Prop :=
  server.pending fd = false ∧ fd ∉ server.loop.events.map Event.fd ∧
    (∀ handled ∈ server.loop.handling, handled.2 ≠ fd) ∧
    server.pool.mReadyList fd ∉ server.mWorkqueue ∧
    ∀ worker, (server.workers worker).serves ≠ some (server.pool.mReadyList fd)

instance (server : Server) (fd : Int) : Decidable (LeftAlone server fd) :=
  inferInstanceAs (Decidable (_ ∧ _ ∧ _ ∧ _ ∧ _))

/--
In runs in which every read of bytes takes the whole receive queue and no request
is refused, a connection that is left alone has an empty receive queue.
-/
theorem left_alone_empty
    (reached : Net.server.ReachableUnder WholeReads server) (fd : Int)
    (live : fd ∈ server.live) (alone : LeftAlone server fd) :
    (server.conns (server.connAt fd)).rcvq = [] := by
  have tables := reachable_tables reached.reachable
  obtain ⟨quiet, notReported, notHandled, notQueued, notServed⟩ := alone
  by_contra waiting
  rcases reachable_nothingStranded reached fd live waiting with
    edge | listed | ⟨taskId, handles⟩ | queued | ⟨worker, wanted⟩
  · have connection : fd ≠ server.pool.mListenFd :=
      fun same => tables.listen_not_live (same ▸ live)
    simp [Server.pending, connection, live, edge, Conn.ready, waiting] at quiet
  · exact notReported listed
  · exact notHandled _ handles rfl
  · exact notQueued queued
  · exact notServed worker (Reader.serves_of_wants wanted)

/-- A client sends a byte, which is read and stored. -/
def readWhole : List Action := letIn 5 ++ ask 0 5 [65] ++ serve 0 1

theorem left_alone_empty_read_whole :
    ∃ last, Net.server.ReachableUnder WholeReads last ∧ 5 ∈ last.live ∧ LeftAlone last 5 ∧
      (last.conns (last.connAt 5)).bytesRead = [65] ∧
      (last.conns (last.connAt 5)).rcvq = [] := by
  obtain ⟨last, reached, ended⟩ := Machine.exists_reachableUnder_of_follow Net.server
    WholeReads readWhole
    (fun last => decide (5 ∈ last.live ∧ LeftAlone last 5 ∧
      (last.conns (last.connAt 5)).bytesRead = [65]))
    start_started (by decide)
  obtain ⟨live, alone, read⟩ := of_decide_eq_true ended
  exact ⟨last, reached, live, alone, read, left_alone_empty reached 5 live alone⟩

/-! ## A message of `BUFFER_SIZE` bytes -/

/-- A `read` that is given as many bytes as it asks for. -/
theorem read?_data {worker : Fin threadNumber} {count : Nat} {taskId length fd : Int}
    {conn : Nat} (reads : server.workers worker = .reading taskId length)
    (socket : (server.task taskId).mSocket = fd) (member : fd ∈ server.live)
    (opened : server.connAt fd = conn) (positive : 0 < count)
    (available : count ≤ (server.conns conn).rcvq.length) (fits : count ≤ bufferSize - 1)
    (representable : intMin ≤ length + count) :
    server.read? worker (.data count) =
      some ((server.setConn conn { server.conns conn with
        rcvq := (server.conns conn).rcvq.drop count
        bytesRead := (server.conns conn).bytesRead ++
          (server.conns conn).rcvq.take count }).setWorker worker
        (.holding taskId (length + count) (octets conn (server.conns conn).bytesRead.length
          ((server.conns conn).rcvq.take count)))) := by
  subst socket opened
  simp only [Server.read?, reads, Server.kernelRead?, member, positive, available, fits,
    TcpSocket.recvNext, length_octets, List.length_take_of_le available, representable,
    and_self, if_true]

/-- A store that stays inside the buffer. -/
theorem store?_eq {worker : Fin threadNumber} {taskId length : Int} {bytes : List Octet}
    (holds : server.workers worker = .holding taskId length bytes)
    (fits : TcpSocket.storeLength length ≤ bufferSize) :
    server.store? worker = some ((server.setTask taskId
      ((server.task taskId).recvStore length bytes).socket).setWorker worker .idle) := by
  have copied : ((server.task taskId).recvStore length bytes).copied ≤ bufferSize := by
    simp only [TcpSocket.recvStore, Buffer.putBuf]
    split
    · exact Nat.zero_le _
    · exact fits
  simp only [Server.store?, holds, copied, if_true]

/-- A worker reads once and stores: what it did not ask for stays in the queue. -/
theorem read_then_store {worker : Fin threadNumber} {count : Nat} {taskId fd : Int} {conn : Nat}
    (reads : server.workers worker = .reading taskId 0)
    (socket : (server.task taskId).mSocket = fd) (member : fd ∈ server.live)
    (opened : server.connAt fd = conn) (positive : 0 < count)
    (available : count ≤ (server.conns conn).rcvq.length) (fits : count ≤ bufferSize - 1) :
    ∃ middle last, server.read? worker (.data count) = some middle ∧
      middle.store? worker = some last ∧
      SameTables server last ∧ last.loop = server.loop ∧
      last.mWorkqueue = server.mWorkqueue ∧
      last.workers = Function.update server.workers worker .idle ∧
      (last.conns conn).edge = (server.conns conn).edge ∧
      (last.conns conn).rcvq = (server.conns conn).rcvq.drop count := by
  have least : intMin = -2147483648 := rfl
  have size : bufferSize = 10240 := rfl
  refine ⟨_, _, read?_data reads socket member opened positive available fits (by omega),
    store?_eq (Function.update_self ..) ?_, ⟨rfl,
      update_field TcpSocket.mSocket rfl, update_field TcpSocket.mFlag rfl⟩, rfl, rfl, ?_, ?_, ?_⟩
  · unfold TcpSocket.storeLength
    omega
  · exact Function.update_idem ..
  · simp [Server.setWorker, Server.setTask, Server.setConn]
  · simp [Server.setWorker, Server.setTask, Server.setConn]

/-- Bytes arrive, and a worker is about to read them. -/
def flooded (value : UInt8) (rest : List UInt8) : List Action :=
  letIn 5 ++ ask 0 5 (value :: rest) ++ [.take 0, .enter 0]

/-- However many bytes there are, the run gets to its `read`. -/
theorem follow_flooded (value : UInt8) (rest : List UInt8) :
    ∃ last, Net.server.follow (fun _ _ => True) .started (flooded value rest) = some last ∧
      last.workers 0 = .reading 99 0 ∧ (∀ worker, worker ≠ 0 → last.workers worker = .idle) ∧
      last.pool.mListenFd = 3 ∧ last.pool.mReadyList 5 = 99 ∧ (last.task 99).mSocket = 5 ∧
      last.live = [5] ∧ last.connAt 5 = 0 ∧ last.loop = .handle [] ∧ last.mWorkqueue = [] ∧
      (last.conns 0).edge = false ∧ (last.conns 0).rcvq = value :: rest := by
  refine ⟨_, rfl, rfl, fun worker different => ?_, rfl, rfl, rfl, rfl, rfl, rfl, rfl, rfl, rfl⟩
  change Function.update (Function.update (fun _ => Reader.idle) 0 (.popped 99)) 0
    (.reading 99 0) worker = .idle
  rw [Function.update_of_ne different, Function.update_of_ne different]

/--
A peer that sends `BUFFER_SIZE` bytes at once leaves the last one in the receive
queue, with nothing under way to read it.
-/
theorem last_byte_left_behind :
    ∃ last, Net.server.Reachable last ∧ 5 ∈ last.live ∧ LeftAlone last 5 ∧
      (last.conns (last.connAt 5)).rcvq = [65] := by
  obtain ⟨first, run, reads, idle, listens, ready, socket, live, opened, waits, queue, edge,
    rcvq⟩ := follow_flooded 65 (List.replicate (bufferSize - 1) 65)
  have arrived : (first.conns 0).rcvq = List.replicate bufferSize 65 := rcvq
  obtain ⟨middle, last, read, store, same, loop, queued, workers, edgeAfter, rcvqAfter⟩ :=
    read_then_store reads socket (by rw [live]; exact List.mem_singleton_self _) opened
      (show 0 < bufferSize - 1 by decide)
      (by rw [arrived, List.length_replicate]; decide) (Nat.le_refl _)
  have reached : Net.server.Reachable first :=
    Machine.reachableUnder_of_follow (.start start_started) run
  have readStep : Net.server.step? first (.read 0 (.data (bufferSize - 1))) = some middle := read
  have storeStep : Net.server.step? middle (.store 0) = some last := store
  have openedAfter : last.connAt 5 = 0 := by rw [same.connAt, opened]
  refine ⟨last, .step (.step reached trivial readStep) trivial storeStep, ?_,
    ⟨?_, ?_, ?_, ?_, ?_⟩, ?_⟩
  · rw [same.live, live]
    exact List.mem_singleton_self _
  · simp [Server.pending, same.listenFd, listens, openedAfter, edgeAfter, edge]
  · simp [loop, waits, Loop.events]
  · simp [loop, waits, Loop.handling]
  · simp [queued, queue]
  · intro worker
    rw [workers]
    by_cases reader : worker = 0
    · simp [reader, Reader.serves]
    · simp [reader, idle, Reader.serves]
  · rw [openedAfter, rcvqAfter, arrived, List.drop_replicate]
    rfl

end LibNet.Net
