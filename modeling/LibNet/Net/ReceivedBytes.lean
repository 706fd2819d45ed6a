import LibNet.Net.ServerRuns

/-!
# Bytes between a socket and a message

Between `read` and a message, bytes are in the hands of a worker or in the
receive buffer of a task.  One lemma says where such bytes were before a step:
at the same task already, in the queue of the connection the task was assigned
to, or in some descriptor that is no connection.
-/

namespace LibNet.Net

open LibNet.Runs
open LibNet.Base

variable {server after : Server} {action : Action}

/-- The total of a worker is at most the number of bytes it has; every failed
read has taken one off. -/
def Reader.InOrder : Reader → Prop
  | .reading _ length => length ≤ 0
  | .holding _ length bytes =>
      intMin ≤ length ∧ length ≤ bytes.length ∧ bytes.length ≤ bufferSize - 1
  | _ => True

def ReadersInOrder (server : Server) : Prop := ∀ worker, (server.workers worker).InOrder

/-- A worker that reads has only failed reads behind it. -/
theorem ReadersInOrder.reading (inOrder : ReadersInOrder server) {worker : Fin threadNumber}
    {taskId length : Int} (reads : server.workers worker = .reading taskId length) :
    length ≤ 0 := by
  have start := inOrder worker
  rwa [reads] at start

theorem WorkerStep.readersInOrder (step : WorkerStep server action after)
    (inOrder : ReadersInOrder server) : ReadersInOrder after := by
  have changed : ∀ (worker : Fin threadNumber) (reader : Reader), reader.InOrder →
      ∀ other, (Function.update server.workers worker reader other).InOrder := by
    intro worker reader fine
    exact (Function.forall_update_iff server.workers (p := fun _ => Reader.InOrder)).mpr
      ⟨fine, fun other _ => inOrder other⟩
  cases step with
  | take worker taskId rest idle queued => exact changed worker _ trivial
  | enter worker taskId popped => exact changed worker _ (Int.le_refl 0)
  | data worker count taskId length fd conn reads socket member opened positive available fits
      representable =>
      have start := inOrder.reading reads
      refine changed worker _ ⟨representable, ?_, ?_⟩
      · rw [length_octets, List.length_take_of_le available]
        omega
      · rw [length_octets, List.length_take_of_le available]
        exact fits
  | foreign worker bytes taskId length reads fits closed representable =>
      have start := inOrder.reading reads
      refine changed worker _ ⟨representable, ?_, ?_⟩
      · rw [List.length_map]
        omega
      · rw [List.length_map]
        exact fits
  | eof worker taskId length fd conn reads socket member opened empty =>
      exact changed worker _ trivial
  | foreignEof worker taskId length reads closed => exact changed worker _ trivial
  | eagain worker taskId length reads empty representable =>
      have start := inOrder.reading reads
      refine changed worker _ ⟨representable, ?_, Nat.zero_le _⟩
      rw [List.length_nil]
      omega
  | error worker taskId length reads representable =>
      have start := inOrder.reading reads
      exact changed worker (.reading taskId (length - 1)) (show length - 1 ≤ 0 by omega)
  | store worker taskId length bytes holds fits => exact changed worker _ trivial

theorem reachable_readersInOrder (reached : Net.server.Reachable server) :
    ReadersInOrder server := by
  refine server_invariant ?_ ?_ reached
  · intro mListenFd mEpollFd reserved block worker
    trivial
  · intro before action after _ inOrder _ step
    cases step with
    | peer step => cases step <;> exact inOrder
    | loop step => cases step <;> exact inOrder
    | worker step => exact step.readersInOrder inOrder
    | app step => cases step <;> exact inOrder

/-- A total that can be stored is a number of bytes the worker has. -/
theorem storeLength_eq {length : Int} {count : Nat} (representable : intMin ≤ length)
    (bounded : length ≤ count) (few : count ≤ bufferSize)
    (fits : TcpSocket.storeLength length ≤ bufferSize) :
    TcpSocket.storeLength length ≤ count := by
  have size : bufferSize = 10240 := rfl
  have least : intMin = -2147483648 := rfl
  unfold TcpSocket.storeLength at fits ⊢
  omega

/-- `recv_buf` leaves the message that was there or makes one of the first bytes
it has read. -/
theorem recvStore_getMsg (socket : TcpSocket Octet) {length : Int} {bytes : List Octet}
    (inOrder : (Reader.holding 0 length bytes).InOrder)
    (fits : (socket.recvStore length bytes).copied ≤ bufferSize) :
    (socket.recvStore length bytes).socket.getMsg = socket.getMsg ∨
      ∃ count, (socket.recvStore length bytes).socket.getMsg = bytes.take count := by
  obtain ⟨representable, bounded, few⟩ := inOrder
  by_cases nothing : TcpSocket.storeLength length = 0
  · left
    simp [TcpSocket.recvStore, TcpSocket.getMsg, Buffer.putBuf, nothing]
  · right
    refine ⟨TcpSocket.storeLength length, ?_⟩
    have copied : TcpSocket.storeLength length ≤ bufferSize := by
      simpa [TcpSocket.recvStore, Buffer.putBuf, nothing] using fits
    have enough : TcpSocket.storeLength length ≤ bytes.length :=
      storeLength_eq representable bounded (by omega) copied
    unfold TcpSocket.recvStore TcpSocket.getMsg
    rw [Buffer.getBuf_putBuf _ _ nothing]
    exact window_layout _ _ enough

/-! ## Where bytes are and where they were -/

/-- The bytes are the message in the receive buffer of the task, or a worker has
read them for the task and not stored them yet. -/
def Server.Stored (server : Server) (taskId : Int) (bytes : List Octet) : Prop :=
  bytes = (server.task taskId).getMsg ∨
    ∃ worker length, server.workers worker = .holding taskId length bytes

/-- Where the bytes of a task come from in one step. -/
inductive StoredFrom (before after : Server) (taskId : Int) : List Octet → Prop where
  | kept (bytes : List Octet) (count : Nat) (stored : before.Stored taskId bytes) :
      StoredFrom before after taskId (bytes.take count)
  | read (conn : Nat) (bytes : List UInt8)
      (member : (before.task taskId).mSocket ∈ before.live)
      (opened : before.connAt (before.task taskId).mSocket = conn)
      (grown : (after.conns conn).bytesRead = (before.conns conn).bytesRead ++ bytes) :
      StoredFrom before after taskId
        (octets conn (before.conns conn).bytesRead.length bytes)
  | foreign (bytes : List Octet) (foreign : ∀ octet ∈ bytes, octet.origin = .foreign) :
      StoredFrom before after taskId bytes

theorem StoredFrom.same {taskId : Int} {bytes : List Octet}
    (stored : server.Stored taskId bytes) : StoredFrom server after taskId bytes := by
  have whole : StoredFrom server after taskId (bytes.take bytes.length) := .kept _ _ stored
  rwa [List.take_length] at whole

/-- Receive buffers and workers that have not changed. -/
theorem stored_of_same {taskId : Int} {bytes : List Octet} (stored : after.Stored taskId bytes)
    (buffers : ∀ taskId, (after.task taskId).mRecvBuf = (server.task taskId).mRecvBuf)
    (workers : after.workers = server.workers) : server.Stored taskId bytes := by
  unfold Server.Stored TcpSocket.getMsg at stored ⊢
  rwa [buffers, workers] at stored

theorem AppStep.mRecvBuf (step : AppStep server action after) :
    ∀ taskId, (after.task taskId).mRecvBuf = (server.task taskId).mRecvBuf := by
  cases step with
  | reply slot bytes message taskId held through => exact update_field TcpSocket.mRecvBuf rfl
  | pushNothing slot heap message held =>
      exact update_field TcpSocket.mRecvBuf (TcpSocket.sendCount_mRecvBuf _)
  | push slot heap message frame held reply =>
      exact update_field TcpSocket.mRecvBuf (TcpSocket.sendCount_mRecvBuf _)
  | writeEnd slot last message frame sends =>
      exact update_field TcpSocket.mRecvBuf (TcpSocket.sendEnd_mRecvBuf _ _ _)
  | _ => exact fun _ => rfl

theorem AppStep.stored (step : AppStep server action after) {taskId : Int} {bytes : List Octet}
    (stored : after.Stored taskId bytes) : server.Stored taskId bytes := by
  refine stored_of_same stored step.mRecvBuf ?_
  cases step <;> rfl

theorem PeerStep.stored (step : PeerStep server action after) {taskId : Int}
    {bytes : List Octet} (stored : after.Stored taskId bytes) : server.Stored taskId bytes := by
  cases step <;> exact stored

/-- The event loop only ever cleans receive buffers. -/
theorem LoopStep.stored (step : LoopStep server action after) {taskId : Int}
    {bytes : List Octet} (stored : after.Stored taskId bytes) :
    server.Stored taskId bytes ∨ bytes = [] := by
  cases step with
  | accept event events connFd other rest reached noHup listens inside fresh unreserved waits
      free => exact .inl (stored_of_same stored (update_field TcpSocket.mRecvBuf rfl) rfl)
  | close event events reached hup member =>
      exact .inl (stored_of_same stored (update_field TcpSocket.mRecvBuf rfl) rfl)
  | recv event events reached noHup member =>
      exact .inl (stored_of_same stored (update_field TcpSocket.mRecvBuf rfl) rfl)
  | clean delSubscript connFd events reached =>
      rcases stored with buffered | held
      · by_cases same : taskId = delSubscript
        · right
          rw [buffered, same]
          simp [Server.task, TcpTaskPool.cleanBuffers, TcpTaskPool.setTask, TcpSocket.getMsg,
            TcpSocket.resetBuffers]
        · left
          left
          rw [buffered]
          simp only [Server.task, TcpTaskPool.cleanBuffers, TcpTaskPool.setTask,
            Function.update_of_ne same]
      · exact .inl (.inr held)
  | _ => exact .inl stored

/-- What a worker has after a step, when only that worker has changed. -/
theorem stored_of_setWorker {worker : Fin threadNumber} {reader : Reader} {taskId : Int}
    {bytes : List Octet} (buffers : ∀ taskId, (after.task taskId).mRecvBuf =
      (server.task taskId).mRecvBuf)
    (workers : after.workers = Function.update server.workers worker reader)
    (stored : after.Stored taskId bytes) :
    server.Stored taskId bytes ∨ ∃ length, reader = .holding taskId length bytes := by
  rcases stored with buffered | ⟨other, length, held⟩
  · left
    left
    rw [buffered, TcpSocket.getMsg, TcpSocket.getMsg, buffers]
  · rw [workers] at held
    by_cases same : other = worker
    · rw [same, Function.update_self] at held
      exact .inr ⟨length, held⟩
    · rw [Function.update_of_ne same] at held
      exact .inl (.inr ⟨other, length, held⟩)

theorem WorkerStep.stored (step : WorkerStep server action after)
    (inOrder : ReadersInOrder server) {taskId : Int} {bytes : List Octet}
    (stored : after.Stored taskId bytes) : StoredFrom server after taskId bytes := by
  have frame : ∀ (worker : Fin threadNumber) (reader : Reader),
      (∀ taskId, (after.task taskId).mRecvBuf = (server.task taskId).mRecvBuf) →
      after.workers = Function.update server.workers worker reader →
      (∀ length, reader = .holding taskId length bytes →
        StoredFrom server after taskId bytes) →
      StoredFrom server after taskId bytes := by
    intro worker reader buffers workers new
    rcases stored_of_setWorker buffers workers stored with old | ⟨length, held⟩
    · exact .same old
    · exact new length held
  cases step with
  | take worker other rest idle queued =>
      exact frame worker _ (fun _ => rfl) rfl fun _ held => by cases held
  | enter worker other popped =>
      exact frame worker _ (update_field TcpSocket.mRecvBuf rfl) rfl fun _ held => by cases held
  | data worker count other length fd conn reads socket member opened positive available fits
      representable =>
      refine frame worker _ (fun _ => rfl) rfl fun _ held => ?_
      cases held
      subst socket
      refine .read conn ((server.conns conn).rcvq.take count) member opened ?_
      simp [Server.setConn, Server.setWorker]
  | foreign worker values other length reads fits closed representable =>
      refine frame worker _ (fun _ => rfl) rfl fun _ held => ?_
      cases held
      refine .foreign _ fun octet listed => ?_
      obtain ⟨value, _, rfl⟩ := List.mem_map.mp listed
      rfl
  | eof worker other length fd conn reads socket member opened empty =>
      exact frame worker _ (fun _ => rfl) rfl fun _ held => by cases held
  | foreignEof worker other length reads closed =>
      exact frame worker _ (fun _ => rfl) rfl fun _ held => by cases held
  | eagain worker other length reads empty representable =>
      refine frame worker _ (fun _ => rfl) rfl fun _ held => ?_
      cases held
      exact .foreign [] fun _ none => by cases none
  | error worker other length reads representable =>
      exact frame worker _ (fun _ => rfl) rfl fun _ held => by cases held
  | store worker other length held holds fits =>
      have fine : (server.workers worker).InOrder := inOrder worker
      rw [holds] at fine
      rcases stored with buffered | ⟨second, total, kept⟩
      · by_cases same : taskId = other
        · subst same
          have read : bytes =
              ((server.task taskId).recvStore length held).socket.getMsg := by
            rw [buffered]
            simp [Server.task, Server.setTask, Server.setWorker, TcpTaskPool.setTask]
          rcases recvStore_getMsg (server.task taskId) fine fits with old | ⟨count, new⟩
          · exact .same (.inl (read.trans old))
          · rw [read, new]
            exact .kept held count (.inr ⟨worker, length, holds⟩)
        · refine .same (.inl ?_)
          rw [buffered]
          simp only [Server.task, Server.setTask, Server.setWorker, TcpTaskPool.setTask,
            Function.update_of_ne same]
      · by_cases same : second = worker
        · simp [Server.setWorker, same] at kept
        · simp only [Server.setWorker, Server.setTask, Function.update_of_ne same] at kept
          exact .same (.inr ⟨second, total, kept⟩)

/-- Where the bytes of a task were before a step. -/
theorem ServerStep.stored (step : ServerStep server action after)
    (inOrder : ReadersInOrder server) {taskId : Int} {bytes : List Octet}
    (stored : after.Stored taskId bytes) : StoredFrom server after taskId bytes := by
  cases step with
  | peer step => exact .same (step.stored stored)
  | loop step =>
      rcases step.stored stored with old | rfl
      · exact .same old
      · exact .foreign [] fun _ none => by cases none
  | worker step => exact step.stored inOrder stored
  | app step => exact .same (step.stored stored)

end LibNet.Net
