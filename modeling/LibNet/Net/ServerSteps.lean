import LibNet.Net.ServerTables

/-!
# What a step of the server can do

Every way a step can go from tables in order, with what it finds and what it
leaves.  Later invariants are proved over this list and never look into the step
function.
-/

namespace LibNet.Net

open LibNet.Runs
open LibNet.Base

/-- Steps of peers. -/
inductive PeerStep (server : Server) : Action → Server → Prop where
  | connect :
      PeerStep server .connect
        { server with connected := server.connected + 1, listenEdge := true }
  | arrive (conn : Nat) (bytes : List UInt8) (known : conn < server.connected)
      (someBytes : bytes ≠ []) :
      PeerStep server (.arrive conn bytes) (server.setConn conn { server.conns conn with
        rcvq := (server.conns conn).rcvq ++ bytes
        edge := true })
  | peerClose (conn : Nat) (known : conn < server.connected) :
      PeerStep server (.peerClose conn) (server.setConn conn { server.conns conn with
        fin := true
        edge := true })
  | peerReset (conn : Nat) (known : conn < server.connected) :
      PeerStep server (.peerReset conn) (server.setConn conn { server.conns conn with
        hup := true
        edge := true })

/-- Steps of the event loop. -/
inductive LoopStep (server : Server) : Action → Server → Prop where
  | epollWait (fds : List Int) (waits : server.loop = .handle []) (distinct : fds.Nodup)
      (pending : ∀ fd ∈ fds, server.pending fd = true) :
      LoopStep server (.epollWait fds) { server with
        loop := .handle (fds.map server.event)
        conns := fun conn =>
          if conn ∈ (fds.filter (· ≠ server.pool.mListenFd)).map server.connAt then
            { server.conns conn with edge := false }
          else server.conns conn
        listenEdge := server.listenEdge && decide (server.pool.mListenFd ∉ fds) }
  | acceptFailed (event : Event) (events : List Event)
      (reached : server.loop = .handle (event :: events)) (noHup : event.hup = false)
      (listens : event.fd = server.pool.mListenFd) :
      LoopStep server (.accept none) { server with loop := .handle events }
  | accept (event : Event) (events : List Event) (connFd taskId : Int) (rest : List Int)
      (reached : server.loop = .handle (event :: events)) (noHup : event.hup = false)
      (listens : event.fd = server.pool.mListenFd)
      (inside : InRange connFd) (fresh : connFd ∉ server.live)
      (unreserved : connFd ∉ server.reserved) (waits : server.accepted < server.connected)
      (free : server.pool.mFreeTasks = taskId :: rest) :
      LoopStep server (.accept (some connFd)) { server with
        pool := { server.pool with
          mFreeTasks := rest
          mReadyList := Function.update server.pool.mReadyList connFd taskId
          mTcpTasks := Function.update server.pool.mTcpTasks taskId
            ((server.task taskId).setFd connFd) }
        loop := .handle events
        live := connFd :: server.live
        connAt := Function.update server.connAt connFd server.accepted
        conns := Function.update server.conns server.accepted
          { server.conns server.accepted with edge := true }
        accepted := server.accepted + 1 }
  | close (event : Event) (events : List Event)
      (reached : server.loop = .handle (event :: events)) (hup : event.hup = true)
      (member : event.fd ∈ server.live) :
      LoopStep server .loop { server with
        pool := server.pool.forgetSocket (server.pool.mReadyList event.fd)
        loop := .clean (server.pool.mReadyList event.fd) event.fd events }
  | recv (event : Event) (events : List Event)
      (reached : server.loop = .handle (event :: events)) (noHup : event.hup = false)
      (member : event.fd ∈ server.live) :
      LoopStep server .loop { server with
        pool := { server.pool with
          mUndoTasks := server.pool.mUndoTasks ++
            [⟨server.pool.mReadyList event.fd,
              (server.task (server.pool.mReadyList event.fd)).getMsg,
              .task (server.pool.mReadyList event.fd), .read (server.connAt event.fd)⟩]
          mTcpTasks := Function.update server.pool.mTcpTasks (server.pool.mReadyList event.fd)
            ((server.task (server.pool.mReadyList event.fd)).setWrFlag
              readOp).getSendBufLenAddr }
        loop := .append (server.pool.mReadyList event.fd) event.fd events }
  | append (taskId fd : Int) (events : List Event)
      (reached : server.loop = .append taskId fd events) :
      LoopStep server .loop { server with
        mWorkqueue := enqueue maxRequests server.mWorkqueue taskId
        loop := .handle events }
  | clean (delSubscript connFd : Int) (events : List Event)
      (reached : server.loop = .clean delSubscript connFd events) :
      LoopStep server .loop { server with
        pool := server.pool.cleanBuffers delSubscript
        loop := .finish delSubscript connFd events }
  | finish (delSubscript connFd : Int) (events : List Event)
      (reached : server.loop = .finish delSubscript connFd events) :
      LoopStep server .loop { server with
        pool := { server.pool with
          mUndoTasks := server.pool.mUndoTasks ++
            [⟨delSubscript, [Byte.digitOne], .temporary, .close (server.connAt connFd)⟩]
          mFreeTasks := delSubscript :: server.pool.mFreeTasks }
        live := server.live.erase connFd
        loop := .handle events }

/-- Steps of a worker. -/
inductive WorkerStep (server : Server) : Action → Server → Prop where
  | take (worker : Fin threadNumber) (taskId : Int) (rest : List Int)
      (idle : server.workers worker = .idle) (queued : server.mWorkqueue = taskId :: rest) :
      WorkerStep server (.take worker)
        ({ server with mWorkqueue := rest }.setWorker worker (.popped taskId))
  | enter (worker : Fin threadNumber) (taskId : Int)
      (popped : server.workers worker = .popped taskId) :
      WorkerStep server (.enter worker)
        ((server.setTask taskId (server.task taskId).recvStart).setWorker worker
          (.reading taskId 0))
  | data (worker : Fin threadNumber) (count : Nat) (taskId length : Int) (fd : Int)
      (conn : Nat)
      (reads : server.workers worker = .reading taskId length)
      (socket : (server.task taskId).mSocket = fd) (member : fd ∈ server.live)
      (opened : server.connAt fd = conn)
      (positive : 0 < count) (available : count ≤ (server.conns conn).rcvq.length)
      (fits : count ≤ bufferSize - 1) (representable : intMin ≤ length + count) :
      WorkerStep server (.read worker (.data count))
        ((server.setConn conn { server.conns conn with
          rcvq := (server.conns conn).rcvq.drop count
          bytesRead := (server.conns conn).bytesRead ++
            (server.conns conn).rcvq.take count }).setWorker worker
          (.holding taskId (length + count) (octets conn (server.conns conn).bytesRead.length
            ((server.conns conn).rcvq.take count))))
  | foreign (worker : Fin threadNumber) (bytes : List UInt8) (taskId length : Int)
      (reads : server.workers worker = .reading taskId length)
      (fits : bytes.length ≤ bufferSize - 1) (closed : (server.task taskId).mSocket ∉ server.live)
      (representable : intMin ≤ length + bytes.length) :
      WorkerStep server (.read worker (.foreign bytes))
        (server.setWorker worker (.holding taskId (length + bytes.length)
          (bytes.map fun value => ⟨value, .foreign⟩)))
  | eof (worker : Fin threadNumber) (taskId length : Int) (fd : Int) (conn : Nat)
      (reads : server.workers worker = .reading taskId length)
      (socket : (server.task taskId).mSocket = fd) (member : fd ∈ server.live)
      (opened : server.connAt fd = conn)
      (empty : (server.conns conn).rcvq = []) :
      WorkerStep server (.read worker .eof)
        ((server.setConn conn { server.conns conn with sawEof := true }).setWorker worker
          .idle)
  | foreignEof (worker : Fin threadNumber) (taskId length : Int)
      (reads : server.workers worker = .reading taskId length)
      (closed : (server.task taskId).mSocket ∉ server.live) :
      WorkerStep server (.read worker .eof) (server.setWorker worker .idle)
  | eagain (worker : Fin threadNumber) (taskId length : Int)
      (reads : server.workers worker = .reading taskId length)
      (empty : (server.task taskId).mSocket ∈ server.live →
        (server.conns (server.connAt (server.task taskId).mSocket)).rcvq = [])
      (representable : intMin ≤ length - 1) :
      WorkerStep server (.read worker .eagain)
        (server.setWorker worker (.holding taskId (length - 1) []))
  | error (worker : Fin threadNumber) (taskId length : Int)
      (reads : server.workers worker = .reading taskId length)
      (representable : intMin ≤ length - 1) :
      WorkerStep server (.read worker .error)
        (server.setWorker worker (.reading taskId (length - 1)))
  | store (worker : Fin threadNumber) (taskId length : Int) (bytes : List Octet)
      (holds : server.workers worker = .holding taskId length bytes)
      (fits : ((server.task taskId).recvStore length bytes).copied ≤ bufferSize) :
      WorkerStep server (.store worker)
        ((server.setTask taskId ((server.task taskId).recvStore length bytes).socket).setWorker
          worker .idle)

/-- Steps of the application. -/
inductive AppStep (server : Server) : Action → Server → Prop where
  | pull (message : Message Octet Cause) (rest : List (Message Octet Cause))
      (front : server.pool.mUndoTasks = message :: rest) :
      AppStep server .pull { server with
        pool := { server.pool with mUndoTasks := rest }
        slots := server.slots ++ [.holding message]
        pulled := server.pulled ++ [message] }
  | reply (slot : Nat) (bytes : List UInt8) (message : Message Octet Cause) (taskId : Int)
      (held : server.slots[slot]? = some (.holding message))
      (through : message.sendMsg = .task taskId) :
      AppStep server (.reply slot bytes) (server.setTask taskId
        ((server.task taskId).writeReply (bytes.map fun value => ⟨value, .program⟩)))
  | replyClosed (slot : Nat) (bytes : List UInt8) :
      AppStep server (.reply slot bytes) server
  | discard (slot : Nat) (message : Message Octet Cause)
      (held : server.slots[slot]? = some (.holding message)) :
      AppStep server (.discard slot) { server with slots := server.slots.eraseIdx slot }
  | pushNothing (slot : Nat) (heap : Nat → Octet) (message : Message Octet Cause)
      (held : server.slots[slot]? = some (.holding message)) :
      AppStep server (.push slot heap)
        { server.setTask message.taskId (server.task message.taskId).sendCount with
          slots := server.slots.eraseIdx slot }
  | push (slot : Nat) (heap : Nat → Octet) (message : Message Octet Cause)
      (frame : SendFrame Octet)
      (held : server.slots[slot]? = some (.holding message))
      (reply : (server.task message.taskId).mSendBuf.mLength ≠ 0) :
      AppStep server (.push slot heap)
        { server.setTask message.taskId (server.task message.taskId).sendCount with
          slots := server.slots.set slot (.sending message frame) }
  | write (slot count : Nat) (message : Message Octet Cause) (frame : SendFrame Octet)
      (sends : server.slots[slot]? = some (.sending message frame)) :
      AppStep server (.write slot (.wrote (count + 1)))
        { server.kernelWrite (server.task message.taskId).mSocket message.cause.conn
            (frame.chunk (count + 1)) with
          slots := server.slots.set slot (.sending message (frame.advance (count + 1))) }
  | writeEnd (slot : Nat) (last : WriteResult) (message : Message Octet Cause)
      (frame : SendFrame Octet)
      (sends : server.slots[slot]? = some (.sending message frame)) :
      AppStep server (.write slot last)
        { server.setTask message.taskId
            ((server.task message.taskId).sendEnd frame.left last).2 with
          slots := server.slots.eraseIdx slot }

inductive ServerStep (server : Server) (action : Action) (after : Server) : Prop where
  | peer (step : PeerStep server action after)
  | loop (step : LoopStep server action after)
  | worker (step : WorkerStep server action after)
  | app (step : AppStep server action after)

/-! ## The step function takes only those steps -/

section Inversion

variable {server after : Server} {action : Action}

theorem peerStep_of_peer? (taken : server.peer? action = some after) :
    PeerStep server action after := by
  cases action with
  | connect =>
      cases taken
      exact .connect
  | arrive conn bytes =>
      simp only [Server.peer?] at taken
      split at taken
      · next allowed =>
          cases taken
          exact .arrive conn bytes allowed.1 allowed.2.2.2
      · cases taken
  | peerClose conn =>
      simp only [Server.peer?] at taken
      split at taken
      · next allowed =>
          cases taken
          exact .peerClose conn allowed.1
      · cases taken
  | peerReset conn =>
      simp only [Server.peer?] at taken
      split at taken
      · next allowed =>
          cases taken
          exact .peerReset conn allowed.1
      · cases taken
  | _ => cases taken

theorem loopStep_of_epollWait? {fds : List Int} (taken : server.epollWait? fds = some after) :
    LoopStep server (.epollWait fds) after := by
  unfold Server.epollWait? at taken
  split at taken
  · next waits =>
      split at taken
      · next allowed =>
          cases taken
          exact .epollWait fds waits allowed.1 allowed.2.2
      · cases taken
  · cases taken

theorem loopStep_of_accept? {connFd : Option Int} (tables : Tables server)
    (taken : server.accept? connFd = some after) : LoopStep server (.accept connFd) after := by
  simp only [Server.accept?] at taken
  split at taken
  · next event events reached =>
      split at taken
      · next listens =>
          split at taken
          · cases taken
            exact .acceptFailed event events reached listens.1 listens.2
          · next fd =>
              split at taken
              · next allowed =>
                  obtain ⟨taskId, rest, free, known⟩ := tables.exists_free
                  obtain ⟨_, fresh, unreserved, waits⟩ := allowed
                  by_cases inside : InRange fd
                  · rw [show server.pool.addConnect? (some fd) = _ from
                      server.pool.assignTask?_of_free free inside known] at taken
                    cases taken
                    exact .accept event events fd taskId rest reached listens.1 listens.2 inside
                      fresh unreserved waits free
                  · rw [show server.pool.addConnect? (some fd) = _ from
                      server.pool.assignTask?_of_outside free inside] at taken
                    cases taken
              · cases taken
      · cases taken
  · cases taken

theorem loopStep_of_loop? (tables : Tables server) (taken : server.loop? = some after) :
    LoopStep server .loop after := by
  simp only [Server.loop?] at taken
  split at taken
  · cases taken
  · next event events reached =>
      have reported := tables.agenda.reported event (by rw [reached]; exact List.mem_cons_self ..)
      split at taken
      · next hup =>
          have member : event.fd ∈ server.live := by
            rcases reported with live | ⟨_, noHup⟩
            · exact live
            · rw [hup] at noHup
              cases noHup
          rw [tables.books.readyTask? member] at taken
          cases taken
          exact .close event events reached hup member
      · next noHup =>
          split at taken
          · cases taken
          · next notListen =>
              have member : event.fd ∈ server.live :=
                reported.resolve_right fun listens => notListen listens.1
              split at taken
              · cases taken
              · next ready pool made =>
                  cases taken
                  obtain ⟨found, rfl⟩ := server.pool.recvMsg?_eq tables.noRecvTasks made
                  obtain ⟨_, _, rfl⟩ := server.pool.readyTask?_eq found
                  exact .recv event events reached (by simpa using noHup) member
  · next taskId fd events reached =>
      cases taken
      exact .append taskId fd events reached
  · next delSubscript connFd events reached =>
      cases taken
      exact .clean delSubscript connFd events reached
  · next delSubscript connFd events reached =>
      rw [TcpTaskPool.addCloseTask?_eq] at taken
      cases taken
      exact .finish delSubscript connFd events reached

theorem workerStep_of_take? {worker : Fin threadNumber}
    (taken : server.take? worker = some after) : WorkerStep server (.take worker) after := by
  simp only [Server.take?] at taken
  split at taken
  · next taskId rest idle queued =>
      cases taken
      exact .take worker taskId rest idle queued
  · cases taken

theorem workerStep_of_enter? {worker : Fin threadNumber}
    (taken : server.enter? worker = some after) : WorkerStep server (.enter worker) after := by
  simp only [Server.enter?] at taken
  split at taken
  · next taskId popped =>
      split at taken
      · cases taken
        exact .enter worker taskId popped
      · cases taken
  · cases taken

/-! `kernelRead?` by the call it answers. -/

theorem kernelRead?_data {fd : Int} {count : Nat} {result : ReadResult Octet}
    (read : server.kernelRead? fd (.data count) = some (result, after)) :
    fd ∈ server.live ∧ 0 < count ∧
      count ≤ (server.conns (server.connAt fd)).rcvq.length ∧ count ≤ bufferSize - 1 ∧
      result = .data (octets (server.connAt fd)
        (server.conns (server.connAt fd)).bytesRead.length
        ((server.conns (server.connAt fd)).rcvq.take count)) ∧
      after = server.setConn (server.connAt fd) { server.conns (server.connAt fd) with
        rcvq := (server.conns (server.connAt fd)).rcvq.drop count
        bytesRead := (server.conns (server.connAt fd)).bytesRead ++
          (server.conns (server.connAt fd)).rcvq.take count } := by
  simp only [Server.kernelRead?] at read
  split at read
  · next allowed =>
      cases read
      exact ⟨allowed.1, allowed.2.1, allowed.2.2.1, allowed.2.2.2, rfl, rfl⟩
  · cases read

theorem kernelRead?_foreign {fd : Int} {bytes : List UInt8} {result : ReadResult Octet}
    (read : server.kernelRead? fd (.foreign bytes) = some (result, after)) :
    fd ∉ server.live ∧ bytes.length ≤ bufferSize - 1 ∧
      result = .data (bytes.map fun value => ⟨value, .foreign⟩) ∧ after = server := by
  simp only [Server.kernelRead?] at read
  split at read
  · next allowed =>
      cases read
      exact ⟨allowed.2.1, allowed.2.2.2, rfl, rfl⟩
  · cases read

theorem kernelRead?_eof {fd : Int} {result : ReadResult Octet}
    (read : server.kernelRead? fd .eof = some (result, after)) :
    result = .eof ∧
      (fd ∈ server.live ∧ (server.conns (server.connAt fd)).rcvq = [] ∧
        after = server.setConn (server.connAt fd)
          { server.conns (server.connAt fd) with sawEof := true } ∨
      fd ∉ server.live ∧ after = server) := by
  simp only [Server.kernelRead?] at read
  split at read
  · next member =>
      split at read
      · next ended =>
          cases read
          exact ⟨rfl, .inl ⟨member, ended.1, rfl⟩⟩
      · cases read
  · next closed =>
      split at read
      · cases read
        exact ⟨rfl, .inr ⟨closed, rfl⟩⟩
      · cases read

theorem kernelRead?_eagain {fd : Int} {result : ReadResult Octet}
    (read : server.kernelRead? fd .eagain = some (result, after)) :
    result = .eagain ∧ after = server ∧
      (fd ∈ server.live → (server.conns (server.connAt fd)).rcvq = []) := by
  simp only [Server.kernelRead?] at read
  split at read
  · split at read
    · next quiet =>
        cases read
        exact ⟨rfl, rfl, fun _ => quiet.1⟩
    · cases read
  · next closed =>
      split at read
      · cases read
        exact ⟨rfl, rfl, fun member => (closed member).elim⟩
      · cases read

theorem workerStep_of_read? {worker : Fin threadNumber} {call : ReadCall}
    (taken : server.read? worker call = some after) :
    WorkerStep server (.read worker call) after := by
  simp only [Server.read?] at taken
  split at taken
  · next taskId length reads =>
      split at taken
      · cases taken
      · next result read kernel =>
          cases call with
          | data count =>
              obtain ⟨member, positive, available, fits, rfl, rfl⟩ := kernelRead?_data kernel
              simp only [TcpSocket.recvNext, length_octets, List.length_take_of_le available]
                at taken
              split at taken
              · next representable =>
                  cases taken
                  exact .data worker count taskId length _ _ reads rfl member rfl positive
                    available fits representable
              · cases taken
          | foreign bytes =>
              obtain ⟨closed, fits, rfl, rfl⟩ := kernelRead?_foreign kernel
              simp only [TcpSocket.recvNext, List.length_map] at taken
              split at taken
              · next representable =>
                  cases taken
                  exact .foreign worker bytes taskId length reads fits closed representable
              · cases taken
          | eof =>
              obtain ⟨rfl, ⟨member, empty, rfl⟩ | ⟨closed, rfl⟩⟩ := kernelRead?_eof kernel
              · cases taken
                exact .eof worker taskId length _ _ reads rfl member rfl empty
              · cases taken
                exact .foreignEof worker taskId length reads closed
          | eagain =>
              obtain ⟨rfl, rfl, empty⟩ := kernelRead?_eagain kernel
              simp only [TcpSocket.recvNext] at taken
              split at taken
              · next representable =>
                  cases taken
                  exact .eagain worker taskId length reads empty representable
              · cases taken
          | error =>
              cases kernel
              simp only [TcpSocket.recvNext] at taken
              split at taken
              · next representable =>
                  cases taken
                  exact .error worker taskId length reads representable
              · cases taken
  · cases taken

theorem workerStep_of_store? {worker : Fin threadNumber}
    (taken : server.store? worker = some after) : WorkerStep server (.store worker) after := by
  simp only [Server.store?] at taken
  split at taken
  · next taskId length bytes holds =>
      split at taken
      · next fits =>
          cases taken
          exact .store worker taskId length bytes holds fits
      · cases taken
  · cases taken

theorem appStep_of_pull? (taken : server.pull? = some after) : AppStep server .pull after := by
  simp only [Server.pull?, TcpTaskPool.getUndoTask] at taken
  cases front : server.pool.mUndoTasks with
  | nil =>
      rw [front] at taken
      cases taken
  | cons message rest =>
      rw [front] at taken
      cases taken
      exact .pull message rest front

theorem appStep_of_reply? {slot : Nat} {bytes : List UInt8}
    (taken : server.reply? slot bytes = some after) :
    AppStep server (.reply slot bytes) after := by
  simp only [Server.reply?] at taken
  split at taken
  · next message held =>
      split at taken
      · next taskId through =>
          split at taken
          · cases taken
            exact .reply slot bytes message taskId held through
          · cases taken
      · cases taken
        exact .replyClosed slot bytes
  · cases taken

theorem appStep_of_discard? {slot : Nat} (taken : server.discard? slot = some after) :
    AppStep server (.discard slot) after := by
  simp only [Server.discard?] at taken
  split at taken
  · next message held =>
      cases taken
      exact .discard slot message held
  · cases taken

theorem appStep_of_push? {slot : Nat} {heap : Nat → Octet}
    (taken : server.push? slot heap = some after) : AppStep server (.push slot heap) after := by
  simp only [Server.push?] at taken
  split at taken
  · next message held =>
      split at taken
      · next counted started =>
          obtain ⟨rfl, _⟩ := TcpSocket.sendStart_eq _ started
          cases taken
          exact .pushNothing slot heap message held
      · next counted frame started =>
          obtain ⟨rfl, reply⟩ := TcpSocket.sendStart_eq _ started
          cases taken
          exact .push slot heap message frame held (reply rfl)
  · cases taken

theorem appStep_of_write? {slot : Nat} {result : WriteResult}
    (taken : server.write? slot result = some after) :
    AppStep server (.write slot result) after := by
  simp only [Server.write?] at taken
  split at taken
  · next message frame sends =>
      split at taken
      · next count =>
          split at taken
          · cases taken
            exact .write slot count message frame sends
          · cases taken
      · cases taken
        exact .writeEnd slot result message frame sends
  · cases taken

/-- From tables in order, the step function takes only the steps of
`ServerStep`. -/
theorem serverStep_of_step? (tables : Tables server) (taken : server.step? action = some after) :
    ServerStep server action after := by
  cases action with
  | connect => exact .peer (peerStep_of_peer? taken)
  | arrive conn bytes => exact .peer (peerStep_of_peer? taken)
  | peerClose conn => exact .peer (peerStep_of_peer? taken)
  | peerReset conn => exact .peer (peerStep_of_peer? taken)
  | epollWait fds => exact .loop (loopStep_of_epollWait? taken)
  | accept connFd => exact .loop (loopStep_of_accept? tables taken)
  | loop => exact .loop (loopStep_of_loop? tables taken)
  | take worker => exact .worker (workerStep_of_take? taken)
  | enter worker => exact .worker (workerStep_of_enter? taken)
  | read worker call => exact .worker (workerStep_of_read? taken)
  | store worker => exact .worker (workerStep_of_store? taken)
  | pull => exact .app (appStep_of_pull? taken)
  | reply slot bytes => exact .app (appStep_of_reply? taken)
  | discard slot => exact .app (appStep_of_discard? taken)
  | push slot heap => exact .app (appStep_of_push? taken)
  | write slot result => exact .app (appStep_of_write? taken)

end Inversion

end LibNet.Net
