import LibNet.Net.ReceivedBytes
import LibNet.Net.ServerMessages

/-!
# The array inside a message

`add_undo_task` copies the whole receive buffer of a task into `recv_msg`, an array of 128
bytes, and `recv_buf` stores up to `BUFFER_SIZE-1` bytes there.  The copy fits as long as
no read makes the total of `recv_buf` larger than the array.
-/

namespace LibNet.Net

open LibNet.Runs
open LibNet.Base

variable {server after : Server} {action : Action}

/-- The next read event is copied into the array of its message, and every message ever
queued is no longer than the array. -/
def CopiesFit (server : Server) : Prop :=
  (∀ event events, server.loop = .handle (event :: events) → event.hup = false →
      event.fd ≠ server.pool.mListenFd →
      (server.task (server.pool.mReadyList event.fd)).getMsg.length ≤ recvMsgSize) ∧
    ∀ message ∈ server.queued, message.recvMsg.length ≤ recvMsgSize

/-- A read that brings so many bytes leaves the total of `recv_buf` at most 128. -/
def Reader.Small (count : Nat) : Reader → Prop
  | .reading _ length => length + count ≤ recvMsgSize
  | _ => True

instance (count : Nat) (reader : Reader) : Decidable (reader.Small count) :=
  match reader with
  | .reading _ length => inferInstanceAs (Decidable (length + count ≤ recvMsgSize))
  | .idle => .isTrue trivial
  | .popped _ => .isTrue trivial
  | .holding _ _ _ => .isTrue trivial

/-- No read brings more bytes than a message has room for. -/
def SmallReads (server : Server) : Action → Prop
  | .read worker (.data count) => (server.workers worker).Small count
  | .read worker (.foreign bytes) => (server.workers worker).Small bytes.length
  | _ => True

instance (server : Server) (action : Action) : Decidable (SmallReads server action) :=
  match action with
  | .read worker (.data count) =>
      inferInstanceAs (Decidable ((server.workers worker).Small count))
  | .read worker (.foreign bytes) =>
      inferInstanceAs (Decidable ((server.workers worker).Small bytes.length))
  | .read _ .eof | .read _ .eagain | .read _ .error => .isTrue trivial
  | .connect | .arrive _ _ | .peerClose _ | .peerReset _ | .epollWait _ | .accept _ | .loop
  | .take _ | .enter _ | .store _ | .pull | .reply _ _ | .discard _ | .push _ _
  | .write _ _ => .isTrue trivial

/-- What a worker is going to store is no longer than the array. -/
def Reader.Fits : Reader → Prop
  | .holding _ length _ => length ≤ recvMsgSize
  | _ => True

/-- Receive buffers, what is going to be stored in them, and messages. -/
structure BuffersFit (server : Server) : Prop where
  tasks : ∀ taskId, (server.task taskId).mRecvBuf.mLength ≤ recvMsgSize
  workers : ∀ worker, (server.workers worker).Fits
  messages : ∀ message ∈ server.queued, message.recvMsg.length ≤ recvMsgSize

/-- The event loop never makes a receive buffer longer. -/
theorem LoopStep.mLength_le (step : LoopStep server action after) (taskId : Int) :
    (after.task taskId).mRecvBuf.mLength ≤ (server.task taskId).mRecvBuf.mLength := by
  have kept : (∀ taskId, (after.task taskId).mRecvBuf = (server.task taskId).mRecvBuf) →
      (after.task taskId).mRecvBuf.mLength ≤ (server.task taskId).mRecvBuf.mLength :=
    fun same => Nat.le_of_eq (by rw [same])
  cases step with
  | accept event events connFd other rest reached noHup listens inside fresh unreserved waits
      free => exact kept (update_field TcpSocket.mRecvBuf rfl)
  | close event events reached hup member => exact kept (update_field TcpSocket.mRecvBuf rfl)
  | recv event events reached noHup member => exact kept (update_field TcpSocket.mRecvBuf rfl)
  | clean delSubscript connFd events reached =>
      by_cases same : taskId = delSubscript
      · subst same
        simp [Server.task, TcpTaskPool.cleanBuffers, TcpTaskPool.setTask, TcpSocket.resetBuffers,
          Buffer.clean]
      · simp [Server.task, TcpTaskPool.cleanBuffers, TcpTaskPool.setTask,
          Function.update_of_ne same]
  | _ => exact Nat.le_refl _

/-- A message is made of a receive buffer or is the one byte of a close event. -/
theorem LoopStep.queued_length (step : LoopStep server action after)
    (message : Message Octet Cause) (made : message ∈ after.queued) :
    message ∈ server.queued ∨ message.recvMsg.length = 1 ∨
      ∃ taskId, message.recvMsg.length = (server.task taskId).mRecvBuf.mLength := by
  cases step with
  | recv event events reached noHup member =>
      simp only [Server.queued, ← List.append_assoc] at made
      rcases List.mem_append.mp made with old | new
      · exact .inl old
      · rw [List.mem_singleton.mp new]
        exact .inr (.inr ⟨_, Buffer.length_getBuf _⟩)
  | finish delSubscript connFd events reached =>
      simp only [Server.queued, ← List.append_assoc] at made
      rcases List.mem_append.mp made with old | new
      · exact .inl old
      · rw [List.mem_singleton.mp new]
        exact .inr (.inl rfl)
  | _ => exact .inl made

theorem LoopStep.buffersFit (step : LoopStep server action after) (fit : BuffersFit server) :
    BuffersFit after where
  tasks := fun taskId => Nat.le_trans (step.mLength_le taskId) (fit.tasks taskId)
  workers := by
    have same : after.workers = server.workers := by cases step <;> rfl
    rw [same]
    exact fit.workers
  messages := by
    intro message made
    rcases step.queued_length message made with old | one | ⟨taskId, length⟩
    · exact fit.messages message old
    · rw [one]
      decide
    · rw [length]
      exact fit.tasks taskId

/-- Storing a total that fits leaves a message that fits: a negative one is never stored. -/
theorem recvStore_mLength_le {socket : TcpSocket Octet} {length : Int} {bytes : List Octet}
    (old : socket.mRecvBuf.mLength ≤ recvMsgSize) (representable : intMin ≤ length)
    (few : length ≤ recvMsgSize) (fits : (socket.recvStore length bytes).copied ≤ bufferSize) :
    (socket.recvStore length bytes).socket.mRecvBuf.mLength ≤ recvMsgSize := by
  by_cases nothing : TcpSocket.storeLength length = 0
  · simpa [TcpSocket.recvStore, Buffer.putBuf, nothing] using old
  · simp only [TcpSocket.recvStore, Buffer.putBuf, nothing, if_false] at fits ⊢
    exact storeLength_eq representable few (by decide) fits

theorem WorkerStep.buffersFit (step : WorkerStep server action after)
    (inOrder : ReadersInOrder server) (fit : BuffersFit server)
    (allowed : SmallReads server action) : BuffersFit after := by
  have changed : ∀ (worker : Fin threadNumber) (reader : Reader), reader.Fits →
      ∀ other, (Function.update server.workers worker reader other).Fits := by
    intro worker reader fine
    exact (Function.forall_update_iff server.workers (p := fun _ => Reader.Fits)).mpr
      ⟨fine, fun other _ => fit.workers other⟩
  have messages : ∀ message ∈ after.queued, message.recvMsg.length ≤ recvMsgSize := by
    rw [step.queued]
    exact fit.messages
  cases step with
  | take worker taskId rest idle queued =>
      exact ⟨fit.tasks, changed worker _ trivial, messages⟩
  | enter worker taskId popped =>
      have same : ∀ other, (Function.update server.pool.mTcpTasks taskId
          (server.task taskId).recvStart other).mRecvBuf = (server.task other).mRecvBuf :=
        update_field TcpSocket.mRecvBuf rfl
      refine ⟨fun other => ?_, changed worker _ trivial, messages⟩
      exact Nat.le_trans (Nat.le_of_eq (congrArg Buffer.mLength (same other))) (fit.tasks other)
  | data worker count taskId length fd conn reads socket member opened positive available fits
      representable =>
      change (server.workers worker).Small count at allowed
      rw [reads] at allowed
      exact ⟨fit.tasks, changed worker _ allowed, messages⟩
  | foreign worker bytes taskId length reads fits closed representable =>
      change (server.workers worker).Small bytes.length at allowed
      rw [reads] at allowed
      exact ⟨fit.tasks, changed worker _ allowed, messages⟩
  | eof worker taskId length fd conn reads socket member opened empty =>
      exact ⟨fit.tasks, changed worker _ trivial, messages⟩
  | foreignEof worker taskId length reads closed =>
      exact ⟨fit.tasks, changed worker _ trivial, messages⟩
  | eagain worker taskId length reads empty representable =>
      have start := inOrder.reading reads
      exact ⟨fit.tasks, changed worker (.holding taskId (length - 1) [])
        (show length - 1 ≤ recvMsgSize by omega), messages⟩
  | error worker taskId length reads representable =>
      exact ⟨fit.tasks, changed worker _ trivial, messages⟩
  | store worker taskId length bytes holds fits =>
      have start : (server.workers worker).InOrder := inOrder worker
      have few : (server.workers worker).Fits := fit.workers worker
      rw [holds] at start few
      refine ⟨?_, changed worker _ trivial, messages⟩
      refine (Function.forall_update_iff server.pool.mTcpTasks
        (p := fun _ socket => socket.mRecvBuf.mLength ≤ recvMsgSize)).mpr ⟨?_, ?_⟩
      · exact recvStore_mLength_le (fit.tasks taskId) start.1 few fits
      · exact fun other _ => fit.tasks other

theorem ServerStep.buffersFit (step : ServerStep server action after)
    (inOrder : ReadersInOrder server) (fit : BuffersFit server)
    (allowed : SmallReads server action) : BuffersFit after := by
  cases step with
  | peer step => cases step <;> exact ⟨fit.tasks, fit.workers, fit.messages⟩
  | loop step => exact step.buffersFit fit
  | worker step => exact step.buffersFit inOrder fit allowed
  | app step =>
      have workers : after.workers = server.workers := by cases step <;> rfl
      refine ⟨fun taskId => ?_, fun worker => ?_, ?_⟩
      · rw [step.mRecvBuf]
        exact fit.tasks taskId
      · rw [workers]
        exact fit.workers worker
      · rw [step.queued]
        exact fit.messages

theorem reachable_buffersFit (reached : Net.server.ReachableUnder SmallReads server) :
    BuffersFit server := by
  refine server_invariant ?_ ?_ reached
  · intro mListenFd mEpollFd reserved block
    have one : 1 ≤ recvMsgSize := by decide
    exact ⟨fun _ => one, fun _ => trivial, fun _ member => by cases member⟩
  · intro before action after earlier fit allowed step
    exact step.buffersFit (reachable_readersInOrder earlier) fit allowed

/-- In runs whose reads leave the total of `recv_buf` at 128 or less, what `add_undo_task`
copies for the next read event fits into its message, and so does every message ever
queued. -/
theorem copies_fit (reached : Net.server.ReachableUnder SmallReads server) :
    CopiesFit server := by
  have fit := reachable_buffersFit reached
  refine ⟨fun event events _ _ _ => ?_, fit.messages⟩
  rw [TcpSocket.getMsg, Buffer.length_getBuf]
  exact fit.tasks _

/-- A client sends one byte and then another. -/
theorem one_byte_fits :
    ∃ last, Net.server.ReachableUnder SmallReads last ∧ last.queued.length = 2 ∧
      CopiesFit last := by
  obtain ⟨last, reached, ended⟩ := Machine.exists_reachableUnder_of_follow Net.server
    SmallReads (letIn 5 ++ ask 0 5 [65] ++ serve 0 1 ++ ask 0 5 [66] ++
      [.arrive 0 [67], .epollWait [5]])
    (fun last => decide (last.queued.length = 2)) start_started (by decide)
  exact ⟨last, reached, of_decide_eq_true ended, copies_fit reached⟩

/-- The loop is at one event, and the receive buffer it is about to copy is too long. -/
def Server.atOverrun (server : Server) (event : Event) : Bool :=
  match server.loop with
  | .handle [next] => decide (next = event ∧ event.hup = false ∧
      event.fd ≠ server.pool.mListenFd ∧
      recvMsgSize < (server.task (server.pool.mReadyList event.fd)).mRecvBuf.mLength)
  | _ => false

theorem not_copiesFit_of_atOverrun {event : Event} (overrun : server.atOverrun event = true) :
    ¬ CopiesFit server := by
  unfold Server.atOverrun at overrun
  split at overrun
  · next here loop =>
      obtain ⟨rfl, noHup, isConn, long⟩ := of_decide_eq_true overrun
      intro fit
      have short := fit.1 here [] loop noHup isConn
      rw [TcpSocket.getMsg, Buffer.length_getBuf] at short
      omega
  · cases overrun

/-- A client sends 129 bytes, which are read, and then one more: `add_undo_task` is to copy
129 bytes into an array of 128. -/
theorem message_overrun :
    ∃ last, Net.server.Reachable last ∧ ¬ CopiesFit last := by
  obtain ⟨last, reached, ended⟩ := Machine.exists_reachableUnder_of_follow Net.server
    (fun _ _ => True)
    (letIn 5 ++ ask 0 5 (List.replicate 129 65) ++ serve 0 129 ++ [.arrive 0 [66], .epollWait [5]])
    (fun last => last.atOverrun ⟨5, false⟩) start_started (by decide +kernel)
  exact ⟨last, reached, not_copiesFit_of_atOverrun ended⟩

end LibNet.Net
