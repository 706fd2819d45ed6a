import LibNet.Net.ReceivedBytes
import LibNet.Net.ServerMessages

/-!
# Whose bytes a message contains

`recv_buf` holds no lock between `read` and `put_buf`.  A worker that has read
bytes of one connection may store them after `close_connect` has cleaned the task
and `add_connect` has given it to the next connection, whose first message then
contains them.  Messages contain bytes of their own connection only when no
worker is between the two while a task is cleaned.
-/

namespace LibNet.Net

open LibNet.Runs
open LibNet.Base

variable {server after : Server} {action : Action}

/-- The task for which a worker has bytes to store. -/
def Reader.storesTo : Reader → Option Int
  | .holding taskId _ _ => some taskId
  | _ => none

/-- A task is cleaned only when no worker has bytes to store in it. -/
def CleanedWhenStored (server : Server) (action : Action) : Prop :=
  action.isLoop = true → ∀ taskId ∈ server.loop.cleaning, ∀ worker,
    (server.workers worker).storesTo ≠ some taskId

instance (server : Server) (action : Action) : Decidable (CleanedWhenStored server action) :=
  inferInstanceAs (Decidable (_ → _))

theorem origin_of_mem_octets {conn start : Nat} {bytes : List UInt8} {octet : Octet}
    (member : octet ∈ octets conn start bytes) :
    ∃ position, octet.origin = .conn conn position := by
  obtain ⟨offset, inside, rfl⟩ := List.mem_mapIdx.mp member
  exact ⟨start + offset, rfl⟩

/-- A byte of a connection is at the task that is assigned to the connection. -/
def OwnedBy (server : Server) (taskId : Int) (octet : Octet) : Prop :=
  ∀ conn position, octet.origin = .conn conn position →
    ∃ fd ∈ server.live, server.pool.mReadyList fd = taskId ∧ server.connAt fd = conn

/-- A byte that no peer has sent. -/
def Unsent (octet : Octet) : Prop := ∀ conn position, octet.origin ≠ .conn conn position

structure BytesIsolated (server : Server) : Prop where
  stored : ∀ taskId bytes, server.Stored taskId bytes → ∀ octet ∈ bytes,
    OwnedBy server taskId octet
  freed : ∀ taskId bytes, server.loop.finishing = some taskId → server.Stored taskId bytes →
    ∀ octet ∈ bytes, Unsent octet
  messages : ∀ message ∈ server.queued, ∀ octet ∈ message.recvMsg,
    ∀ conn position, octet.origin = .conn conn position → conn = message.cause.conn

theorem OwnedBy.congr {taskId : Int} {octet : Octet} (owned : OwnedBy server taskId octet)
    (same : SameTables server after) : OwnedBy after taskId octet := by
  intro conn position origin
  rw [same.live, same.ready, same.connAt]
  exact owned conn position origin

/-- Bytes read in a step are of the connection that has the task. -/
theorem ownedBy_of_storedFrom (tables : Tables server) (isolated : BytesIsolated server)
    {taskId : Int} {bytes : List Octet} (source : StoredFrom server after taskId bytes) :
    ∀ octet ∈ bytes, OwnedBy server taskId octet := by
  intro octet member
  cases source with
  | kept whole count stored =>
      exact isolated.stored taskId whole stored octet (List.mem_of_mem_take member)
  | read conn values live opened grown =>
      obtain ⟨start, origin⟩ := origin_of_mem_octets member
      intro other position same
      rw [origin] at same
      cases same
      exact ⟨_, live, (tables.owner live).1, opened⟩
  | foreign whole foreign =>
      intro conn position origin
      rw [foreign octet member] at origin
      cases origin

/-- A task that is about to be freed reads from no connection. -/
theorem unsent_of_storedFrom (tables : Tables server) (isolated : BytesIsolated server)
    {taskId : Int} {bytes : List Octet} (finishing : server.loop.finishing = some taskId)
    (source : StoredFrom server after taskId bytes) : ∀ octet ∈ bytes, Unsent octet := by
  intro octet member
  cases source with
  | kept whole count stored =>
      exact isolated.freed taskId whole finishing stored octet (List.mem_of_mem_take member)
  | read conn values live opened grown =>
      obtain ⟨connFd, handling, closing⟩ := Loop.closing_of_finishing finishing
      obtain ⟨closes, listed, _⟩ := tables.agenda.handled taskId connFd handling
      obtain ⟨owner, open_⟩ := tables.owner live
      have same := tables.books.injective live closes (owner.trans listed.symm)
      exact (open_ (by rw [same, closing])).elim
  | foreign whole foreign =>
      intro conn position origin
      rw [foreign octet member] at origin
      cases origin

/-- Peers, workers and the application, which make no messages. -/
theorem BytesIsolated.transport (isolated : BytesIsolated server) (tables : Tables server)
    (same : SameTables server after) (loop : after.loop = server.loop)
    (queued : after.queued = server.queued)
    (source : ∀ taskId bytes, after.Stored taskId bytes → StoredFrom server after taskId bytes) :
    BytesIsolated after where
  stored := by
    intro taskId bytes stored octet member
    exact (ownedBy_of_storedFrom tables isolated (source taskId bytes stored) octet member).congr
      same
  freed := by
    intro taskId bytes finishing stored octet member
    rw [loop] at finishing
    exact unsent_of_storedFrom tables isolated finishing (source taskId bytes stored) octet member
  messages := by
    rw [queued]
    exact isolated.messages

/-! ## The event loop -/

/-- Bytes of a task stay with their owner when a step assigns no task and frees
none. -/
theorem LoopStep.ownedBy (step : LoopStep server action after) (isolated : BytesIsolated server)
    (live : after.live = server.live) (ready : after.pool.mReadyList = server.pool.mReadyList)
    (connAt : after.connAt = server.connAt) {taskId : Int} {bytes : List Octet}
    (stored : after.Stored taskId bytes) : ∀ octet ∈ bytes, OwnedBy after taskId octet := by
  intro octet member conn position origin
  rw [live, ready, connAt]
  rcases step.stored stored with old | rfl
  · exact isolated.stored taskId bytes old octet member conn position origin
  · cases member

/-- The event loop adds messages with unsent bytes or with bytes of their own
connection. -/
theorem LoopStep.messages (step : LoopStep server action after) (tables : Tables server)
    (isolated : BytesIsolated server) :
    ∀ message ∈ after.queued, ∀ octet ∈ message.recvMsg,
      ∀ conn position, octet.origin = .conn conn position → conn = message.cause.conn := by
  have added : ∀ new : Message Octet Cause,
      (∀ octet ∈ new.recvMsg, ∀ conn position, octet.origin = .conn conn position →
        conn = new.cause.conn) →
      ∀ message ∈ server.pulled ++ (server.pool.mUndoTasks ++ [new]),
        ∀ octet ∈ message.recvMsg, ∀ conn position, octet.origin = .conn conn position →
          conn = message.cause.conn := by
    intro new own message member
    rw [← List.append_assoc] at member
    rcases List.mem_append.mp member with old | last
    · exact isolated.messages message old
    · rw [List.mem_singleton.mp last]
      exact own
  cases step with
  | recv event events reached noHup live =>
      refine added _ fun octet member conn position origin => ?_
      obtain ⟨fd, other, listed, opened⟩ :=
        isolated.stored _ _ (.inl rfl) octet member conn position origin
      rw [tables.books.injective other live listed] at opened
      exact opened.symm
  | finish delSubscript connFd events reached =>
      refine added _ fun octet member conn position origin => ?_
      rw [List.mem_singleton.mp member] at origin
      cases origin
  | _ => exact isolated.messages

theorem LoopStep.bytesIsolated (step : LoopStep server action after) (tables : Tables server)
    (isolated : BytesIsolated server) (allowed : CleanedWhenStored server action) :
    BytesIsolated after := by
  have messages := step.messages tables isolated
  cases step with
  | epollWait fds waits distinct pending =>
      exact ⟨isolated.stored, fun _ _ none => (by cases none), messages⟩
  | acceptFailed event events reached noHup listens =>
      exact ⟨isolated.stored, fun _ _ none => (by cases none), messages⟩
  | accept event events connFd taskId rest reached noHup listens inside fresh unreserved waits
      free =>
      refine ⟨?_, fun _ _ none => (by cases none), messages⟩
      intro task bytes stored octet member conn position origin
      have before := stored_of_same stored (update_field TcpSocket.mRecvBuf rfl) rfl
      obtain ⟨fd, live, listed, opened⟩ :=
        isolated.stored task bytes before octet member conn position origin
      have different : fd ≠ connFd := fun same => fresh (same ▸ live)
      refine ⟨fd, List.mem_cons_of_mem _ live, ?_, ?_⟩
      · simpa only [Function.update_of_ne different] using listed
      · simpa only [Function.update_of_ne different] using opened
  | close event events reached hup member =>
      refine ⟨?_, fun _ _ none => (by cases none), messages⟩
      intro task bytes stored
      exact (LoopStep.close event events reached hup member).ownedBy isolated rfl rfl rfl stored
  | recv event events reached noHup member =>
      refine ⟨?_, fun _ _ none => (by cases none), messages⟩
      intro task bytes stored
      exact (LoopStep.recv event events reached noHup member).ownedBy isolated rfl rfl rfl stored
  | append taskId fd events reached =>
      exact ⟨isolated.stored, fun _ _ none => (by cases none), messages⟩
  | clean delSubscript connFd events reached =>
      have step : LoopStep server .loop _ := .clean delSubscript connFd events reached
      refine ⟨fun task bytes stored => step.ownedBy isolated rfl rfl rfl stored, ?_, messages⟩
      -- No worker has bytes for the task, and its buffer is empty now.
      intro task bytes finishing stored octet member
      cases finishing
      rcases stored with buffered | ⟨worker, length, held⟩
      · rw [buffered] at member
        simp [Server.task, TcpTaskPool.cleanBuffers, TcpTaskPool.setTask, TcpSocket.getMsg,
          TcpSocket.resetBuffers] at member
      · refine (allowed rfl delSubscript (by rw [reached]; rfl) worker ?_).elim
        change server.workers worker = _ at held
        rw [held]
        rfl
  | finish delSubscript connFd events reached =>
      obtain ⟨live, ready, _⟩ := tables.agenda.handled delSubscript connFd (by rw [reached]; rfl)
      refine ⟨?_, fun _ _ none => (by cases none), messages⟩
      intro task bytes stored octet member conn position origin
      obtain ⟨fd, old, listed, opened⟩ :=
        isolated.stored task bytes stored octet member conn position origin
      refine ⟨fd, tables.books.distinct.mem_erase_iff.mpr ⟨?_, old⟩, listed, opened⟩
      -- Bytes of the closed connection were gone when its task was cleaned.
      rintro rfl
      have finishing : server.loop.finishing = some task := by
        rw [reached, ← listed, ready]
        rfl
      exact isolated.freed task bytes finishing stored octet member conn position origin

theorem ServerStep.bytesIsolated (step : ServerStep server action after) (tables : Tables server)
    (inOrder : ReadersInOrder server) (isolated : BytesIsolated server)
    (allowed : CleanedWhenStored server action) : BytesIsolated after := by
  have source := fun taskId bytes (stored : after.Stored taskId bytes) =>
    step.stored inOrder stored
  cases step with
  | peer step =>
      exact isolated.transport tables step.sameTables.1 step.sameTables.2 step.queued source
  | loop step => exact step.bytesIsolated tables isolated allowed
  | worker step =>
      exact isolated.transport tables step.sameTables.1 step.sameTables.2 step.queued source
  | app step =>
      exact isolated.transport tables step.sameTables.1 step.sameTables.2 step.queued source

theorem reachable_bytesIsolated
    (reached : Net.server.ReachableUnder CleanedWhenStored server) : BytesIsolated server := by
  refine server_invariant ?_ ?_ reached
  · intro mListenFd mEpollFd reserved block
    refine ⟨?_, fun _ _ none => (by cases none), fun _ member => by cases member⟩
    rintro taskId bytes (rfl | ⟨worker, length, held⟩) octet member conn position origin
    · rw [List.mem_singleton.mp member] at origin
      cases origin
    · cases held
  · intro before action after earlier isolated allowed step
    exact step.bytesIsolated (reachable_tables earlier) (reachable_readersInOrder earlier) isolated
      allowed

/--
In runs that clean a task only when no worker has bytes to store in it, a message
queued for a connection contains no bytes read from another one.
-/
theorem messages_isolated
    (reached : Net.server.ReachableUnder CleanedWhenStored server)
    (message : Message Octet Cause) (made : message ∈ server.queued) (octet : Octet)
    (member : octet ∈ message.recvMsg) (conn position : Nat)
    (sent : octet.origin = .conn conn position) : conn = message.cause.conn :=
  (reachable_bytesIsolated reached).messages message made octet member conn position sent

/-- Two clients one after the other on one task. -/
def servedInTurn : List Action :=
  letIn 5 ++ ask 0 5 [65] ++ serve 0 1 ++ hangUp 0 5 ++
    letIn 5 ++ ask 1 5 [66] ++ serve 0 1 ++ ask 1 5 [67]

theorem messages_isolated_in_turn :
    ∃ last, Net.server.ReachableUnder CleanedWhenStored last ∧
      ∃ message ∈ last.queued, ∃ octet ∈ message.recvMsg, octet = ⟨66, .conn 1 0⟩ ∧
        1 = message.cause.conn := by
  obtain ⟨last, reached, ended⟩ := Machine.exists_reachableUnder_of_follow Net.server
    CleanedWhenStored servedInTurn
    (fun last => decide (∃ message ∈ last.queued, ⟨66, .conn 1 0⟩ ∈ message.recvMsg))
    start_started (by decide)
  obtain ⟨message, made, member⟩ := of_decide_eq_true ended
  exact ⟨last, reached, message, made, _, member, rfl,
    messages_isolated reached message made _ member 1 0 rfl⟩

/-- A worker stores what it read from the first client when the second one has
the task. -/
def storedLate : List Action :=
  letIn 5 ++ ask 0 5 [65] ++ [.take 0, .enter 0, .read 0 (.data 1)] ++ hangUp 0 5 ++
    letIn 5 ++ [.store 0] ++ ask 1 5 [66]

/-- A message for the second client is the request of the first. -/
theorem late_store_leaks :
    ∃ last, Net.server.Reachable last ∧
      ∃ message ∈ last.queued, message.cause = .read 1 ∧
        message.recvMsg = [⟨65, .conn 0 0⟩] := by
  obtain ⟨last, reached, ended⟩ := Machine.exists_reachableUnder_of_follow Net.server
    (fun _ _ => True) storedLate
    (fun last => decide (∃ message ∈ last.queued, message.cause = .read 1 ∧
      message.recvMsg = [⟨65, .conn 0 0⟩]))
    start_started (by decide)
  exact ⟨last, reached, of_decide_eq_true ended⟩

end LibNet.Net
