import LibNet.Net.RepliesInTurn
import LibNet.Net.Streams

/-!
# An application that lets the workers finish

When clients take turns and the application gives its answer to a message only after the read
request of that message has been served, nobody has to hurry: whatever the pace of the threads,
an event of a connection finds no earlier request of it under way, and every request finds
something to read.  So the workers keep up of themselves.
-/

namespace LibNet.Net

open LibNet.Runs
open LibNet.Base

variable {server after : Server} {action : Action}

/-- The request made for the message in a slot has been served. -/
def Server.servedAt (server : Server) (slot : Nat) : Bool :=
  match server.slots[slot]? with
  | some (.holding message) =>
      message.cause.isClose || decide (server.underway message.taskId = 0)
  | _ => true

def ReadCall.isError : ReadCall → Bool
  | .error => true
  | _ => false

/-- The application answers a message, or drops it, when its request has been served; and
`read` has no errors. -/
def Server.unhurried (server : Server) : Action → Bool
  | .push slot _ => server.servedAt slot
  | .discard slot => server.servedAt slot
  | .read _ call => !call.isError
  | _ => true

/-- The runs of clients that take turns and an application that waits for the workers.  Nothing
is asked of the event loop. -/
def Patient (server : Server) (action : Action) : Prop :=
  (action.isLoop = false → InTurn server action) ∧ server.unhurried action = true

instance (server : Server) (action : Action) : Decidable (Patient server action) :=
  inferInstanceAs (Decidable (_ ∧ _))

def Server.Unread (server : Server) (taskId : Int) : Prop :=
  server.loop.adds taskId ≠ 0 ∨ taskId ∈ server.mWorkqueue ∨
    ∃ worker, (server.workers worker).wants = some taskId

theorem underway_of_unread {taskId : Int} (unread : server.Unread taskId) :
    server.underway taskId ≠ 0 := by
  rcases unread with adds | queued | ⟨worker, wanted⟩
  · unfold Server.underway
    omega
  · have counted := List.count_pos_iff.mpr queued
    unfold Server.underway
    omega
  · have busy := worker_le_underway (Reader.serves_of_wants wanted)
    omega

/-- The one request of a task has come to its `read`. -/
theorem not_unread_of_holding {worker : Fin threadNumber} {taskId length : Int}
    {bytes : List Octet} (holds : server.workers worker = .holding taskId length bytes)
    (single : server.underway taskId ≤ 1) : ¬ server.Unread taskId := by
  have works : (server.workers worker).serves = some taskId := by rw [holds]; rfl
  have one := Finset.single_le_sum (fun w _ => Nat.zero_le
    ((server.workers w).worksOn taskId)) (Finset.mem_univ worker)
  rw [worksOn_of_serves works] at one
  have counted : server.underway taskId = server.loop.adds taskId +
    server.mWorkqueue.count taskId + ∑ w, (server.workers w).worksOn taskId := rfl
  rintro (adds | queued | ⟨other, wanted⟩)
  · omega
  · have queue := List.count_pos_iff.mpr queued
    omega
  · by_cases same : other = worker
    · rw [same, holds] at wanted
      cases wanted
    · have two := workers_le_underway same (Reader.serves_of_wants wanted) works
      omega

/-- No worker makes a request that has not come to its `read`. -/
theorem WorkerStep.unread (step : WorkerStep server action after) {taskId : Int}
    (unread : after.Unread taskId) : server.Unread taskId := by
  obtain ⟨_, loop⟩ := step.sameTables
  rcases unread with adds | queued | ⟨worker, wanted⟩
  · exact .inl (loop ▸ adds)
  · exact .inr (.inl (step.mem_mWorkqueue queued))
  · rcases step.wants wanted with wanted | queued
    · exact .inr (.inr ⟨worker, wanted⟩)
    · exact .inr (.inl queued)

/-! ## The invariant -/

/-- The message is one of a read event. -/
def Message.asks (message : Message Octet Cause) : Prop := ∃ conn, message.cause = .read conn

/-- A request under way is one of a message that awaits its answer, and none is under way for an
answer that is being sent; an event in hand, or a request that has not come to its `read`, finds
something at its connection. -/
structure Attended (server : Server) : Prop where
  asked : ∀ taskId, server.underway taskId ≠ 0 →
    ∃ message ∈ server.awaiting, message.taskId = taskId ∧ message.asks
  sending : ∀ message frame, .sending message frame ∈ server.slots → frame.left ≠ 0 →
    message.asks ∧ server.underway message.taskId = 0
  reported : ∀ event ∈ server.loop.events, event.fd ∈ server.live →
    (server.conns (server.connAt event.fd)).ready = true
  unread : ∀ fd ∈ server.live, server.Unread (server.pool.mReadyList fd) →
    (server.conns (server.connAt fd)).ready = true

/-- The connection of a message that awaits its answer has no event in hand. -/
theorem TakesTurns.unreported (turns : TakesTurns server) (tables : Tables server)
    {message : Message Octet Cause} (member : message ∈ server.awaiting) (asks : message.asks)
    {fd : Int} (live : fd ∈ server.live) (ready : server.pool.mReadyList fd = message.taskId) :
    fd ∉ server.loop.events.map Event.fd := by
  obtain ⟨conn, asked⟩ := asks
  obtain ⟨other, awaitsReply⟩ := turns.owner message member conn asked
  have same := tables.books.injective live awaitsReply.live (ready.trans awaitsReply.ready.symm)
  rw [same]
  exact awaitsReply.unreported

theorem Attended.unreported (attended : Attended server) (turns : TakesTurns server)
    (tables : Tables server) {fd : Int} (live : fd ∈ server.live)
    (busy : server.underway (server.pool.mReadyList fd) ≠ 0) :
    fd ∉ server.loop.events.map Event.fd := by
  obtain ⟨message, member, task, asks⟩ := attended.asked _ busy
  exact turns.unreported tables member asks live task.symm

/-- The work queue has one request of a connection at most. -/
theorem OneByOne.length_mWorkqueue (single : OneByOne server) (tables : Tables server) :
    server.mWorkqueue.length ≤ maxTask := by
  have distinct : server.mWorkqueue.Nodup := by
    refine List.nodup_iff_count_le_one.mpr fun taskId => ?_
    have one := single.single taskId
    unfold Server.underway at one
    omega
  have among : ∀ taskId ∈ server.mWorkqueue, taskId ∈ TcpTaskPool.taskIds := by
    intro taskId queued
    obtain ⟨fd, live, rfl, _⟩ := single.owned taskId (underway_of_unread (.inr (.inl queued)))
    exact (TcpTaskPool.mem_taskIds _).mpr (tables.books.inRange_ready live)
  simpa [TcpTaskPool.taskIds] using (List.subperm_of_subset distinct among).length_le

theorem OneByOne.room (single : OneByOne server) (tables : Tables server) :
    server.mWorkqueue.length ≤ maxRequests :=
  (single.length_mWorkqueue tables).trans (by decide)

theorem Patient.inTurn (allowed : Patient server action)
    (room : server.mWorkqueue.length ≤ maxRequests) : InTurn server action := by
  cases action with
  | loop => exact fun _ => room
  | _ => exact allowed.1 rfl

theorem not_ready_of_eagain {fd : Int} {result : ReadResult Octet} (live : fd ∈ server.live)
    (read : server.kernelRead? fd .eagain = some (result, after)) :
    (server.conns (server.connAt fd)).ready = false := by
  simp only [Server.kernelRead?, live, if_true] at read
  split at read
  · next quiet => simp [Conn.ready, quiet]
  · cases read

theorem reading_of_read? {worker : Fin threadNumber} {call : ReadCall}
    (taken : server.read? worker call = some after) :
    ∃ taskId length, server.workers worker = .reading taskId length ∧
      ∃ answer, server.kernelRead? (server.task taskId).mSocket call = some answer := by
  simp only [Server.read?] at taken
  split at taken
  · next taskId length reads =>
      split at taken
      · cases taken
      · next result next answered => exact ⟨taskId, length, reads, _, answered⟩
  · cases taken

theorem Attended.not_eagain (attended : Attended server) (tables : Tables server)
    (single : OneByOne server) (worker : Fin threadNumber) :
    server.read? worker .eagain = none := by
  cases taken : server.read? worker .eagain with
  | none => rfl
  | some after =>
      exfalso
      obtain ⟨taskId, length, reads, ⟨result, next⟩, answered⟩ := reading_of_read? taken
      have live : (server.task taskId).mSocket ∈ server.live :=
        single.socket_live tables (by rw [reads]; rfl)
      have ready := attended.unread _ live
        (.inr (.inr ⟨worker, by rw [reads, (tables.owner live).1]; rfl⟩))
      rw [not_ready_of_eagain live answered] at ready
      cases ready

/-- The next event is one of an open connection when `recv_msg` or `close_connect` handles it. -/
theorem live_of_loop? (tables : Tables server) (taken : server.loop? = some after) {event : Event}
    (next : event ∈ server.loop.nextEvent) :
    event.fd ∈ server.live ∧ event ∈ server.loop.events := by
  have found : server.loop.nextEvent = some event := next
  cases loopStep_of_loop? tables taken with
  | close event' events reached hup member =>
      rw [reached] at found ⊢
      cases found
      exact ⟨member, List.mem_cons_self ..⟩
  | recv event' events reached noHup member =>
      rw [reached] at found ⊢
      cases found
      exact ⟨member, List.mem_cons_self ..⟩
  | append taskId fd events reached =>
      rw [reached] at found
      cases found
  | clean delSubscript connFd events reached =>
      rw [reached] at found
      cases found
  | finish delSubscript connFd events reached =>
      rw [reached] at found
      cases found

theorem Attended.prompt (attended : Attended server) (turns : TakesTurns server)
    (tables : Tables server) (single : OneByOne server) (allowed : Patient server action)
    (taken : server.step? action = some after) : Prompt server action := by
  cases action with
  | loop =>
      refine ⟨fun event next => ?_, fun _ => single.room tables⟩
      obtain ⟨live, member⟩ := live_of_loop? tables taken next
      by_contra busy
      exact attended.unreported turns tables live busy (List.mem_map_of_mem member)
  | read worker call =>
      cases call with
      | error => cases allowed.2
      | eagain =>
          have refused := attended.not_eagain tables single worker
          change server.read? worker .eagain = _ at taken
          rw [refused] at taken
          cases taken
      | data count => rfl
      | foreign bytes => rfl
      | eof => rfl
  | _ => trivial

/-! ## Steps -/

theorem Conn.ready_iff {conn : Conn} :
    conn.ready = true ↔ conn.rcvq ≠ [] ∨ conn.fin = true ∨ conn.hup = true := by
  simp [Conn.ready, or_assoc]

theorem PeerStep.ready (step : PeerStep server action after) {conn : Nat}
    (ready : (server.conns conn).ready = true) : (after.conns conn).ready = true := by
  have changed : ∀ (other : Nat) (value : Conn),
      ((server.conns other).ready = true → value.ready = true) →
      (Function.update server.conns other value conn).ready = true := by
    intro other value grows
    by_cases same : conn = other
    · subst same
      rw [Function.update_self]
      exact grows ready
    · rwa [Function.update_of_ne same]
  cases step with
  | connect => exact ready
  | arrive other bytes known someBytes =>
      refine changed other _ fun _ => Conn.ready_iff.mpr (.inl ?_)
      simp [someBytes]
  | peerClose other known => exact changed other _ fun _ => Conn.ready_iff.mpr (.inr (.inl rfl))
  | peerReset other known => exact changed other _ fun _ => Conn.ready_iff.mpr (.inr (.inr rfl))

theorem PeerStep.attended (step : PeerStep server action after) (attended : Attended server) :
    Attended after := by
  have ready : ∀ conn, (server.conns conn).ready = true → (after.conns conn).ready = true :=
    fun _ => step.ready
  cases step <;>
    exact ⟨attended.asked, attended.sending,
      fun event member live => ready _ (attended.reported event member live),
      fun fd live unread => ready _ (attended.unread fd live unread)⟩

/-- A connection loses what it had only to a worker that reads it. -/
theorem WorkerStep.ready (step : WorkerStep server action after) {conn : Nat}
    (ready : (server.conns conn).ready = true) :
    (after.conns conn).ready = true ∨ ∃ worker taskId length bytes,
      (server.workers worker).serves = some taskId ∧
      (server.task taskId).mSocket ∈ server.live ∧
      server.connAt (server.task taskId).mSocket = conn ∧
      after.workers worker = .holding taskId length bytes := by
  cases step with
  | data worker count taskId length fd other reads socket member opened positive available fits
      representable =>
      by_cases same : conn = other
      · subst same socket
        exact .inr ⟨worker, taskId, _, _, by rw [reads]; rfl, member, opened,
          Function.update_self ..⟩
      · left
        simpa only [Server.setConn, Server.setWorker, Function.update_of_ne same] using ready
  | eof worker taskId length fd other reads socket member opened empty =>
      left
      refine Eq.trans ?_ ready
      exact update_field Conn.ready (by rfl) conn
  | _ => exact .inl ready

theorem WorkerStep.attended (step : WorkerStep server action after) (turns : TakesTurns server)
    (tables : Tables server) (single : OneByOne server) (attended : Attended server) :
    Attended after := by
  obtain ⟨same, loop⟩ := step.sameTables
  have awaiting : after.awaiting = server.awaiting := by cases step <;> rfl
  have slots : after.slots = server.slots := by cases step <;> rfl
  refine ⟨?_, ?_, ?_, ?_⟩
  · intro taskId busy
    have less := step.underway_le taskId
    rw [awaiting]
    exact attended.asked taskId (by omega)
  · intro message frame member some_left
    rw [slots] at member
    obtain ⟨asks, served⟩ := attended.sending message frame member some_left
    have less := step.underway_le message.taskId
    exact ⟨asks, by omega⟩
  · intro event member live
    rw [loop] at member
    rw [same.live] at live
    rw [same.connAt]
    rcases step.ready (attended.reported event member live) with
      ready | ⟨worker, taskId, _, _, works, socket, opened, _⟩
    · exact ready
    · have owner := (tables.owner socket).1
      have busy := worker_le_underway works
      rw [tables.connInjective _ socket _ live opened] at owner
      refine absurd (List.mem_map_of_mem member) (attended.unreported turns tables live ?_)
      rw [owner]
      omega
  · intro fd live unread
    rw [same.live] at live
    rw [same.ready] at unread
    rw [same.connAt]
    rcases step.ready (attended.unread fd live (step.unread unread)) with
      ready | ⟨worker, taskId, length, bytes, works, socket, opened, holds⟩
    · exact ready
    · have owner := (tables.owner socket).1
      rw [tables.connInjective _ socket _ live opened] at owner
      rw [owner] at unread
      exact absurd unread (not_unread_of_holding holds
        ((step.underway_le taskId).trans (single.single taskId)))

theorem LoopStep.ready (step : LoopStep server action after) (conn : Nat) :
    (after.conns conn).ready = (server.conns conn).ready := by
  obtain ⟨_, changed⟩ := step.conns conn
  rw [changed]
  rfl

theorem LoopStep.mem_awaiting (step : LoopStep server action after)
    {message : Message Octet Cause} (member : message ∈ server.awaiting) :
    message ∈ after.awaiting := by
  have added : ∀ more, message ∈ (server.pool.mUndoTasks ++ more) ++
      server.slots.filterMap Slot.owing := by
    intro more
    rcases List.mem_append.mp member with queued | held
    · exact List.mem_append_left _ (List.mem_append_left _ queued)
    · exact List.mem_append_right _ held
  cases step with
  | recv event events reached noHup live => exact added _
  | finish delSubscript connFd events reached => exact added _
  | _ => exact member

/-- A request is made for an event in hand, with the message of the event. -/
theorem LoopStep.request (step : LoopStep server action after) (prompt : Prompt server action)
    {taskId : Int} (made : after.underway taskId ≠ server.underway taskId) :
    (∃ event ∈ server.loop.events, event.fd ∈ server.live ∧
      server.pool.mReadyList event.fd = taskId) ∧
    ∃ message ∈ after.awaiting, message.taskId = taskId ∧ message.asks := by
  obtain same | ⟨_, _, handled, appends⟩ := step.underway prompt taskId
  · exact absurd same made
  · cases step with
    | recv event events reached noHup live =>
        have ready := Option.some.inj handled
        refine ⟨⟨event, by rw [reached]; exact List.mem_cons_self .., live, ready⟩, _,
          List.mem_append_left _ (List.mem_append_right _ (List.mem_singleton_self _)), ready,
          _, rfl⟩
    | epollWait fds waits distinct pending => cases appends
    | acceptFailed event events reached noHup listens => cases appends
    | accept event events connFd assigned rest reached noHup listens inside fresh unreserved waits
        unused => cases appends
    | close event events reached hup member => cases appends
    | append adding appended events reached => cases appends
    | clean delSubscript connFd events reached => cases appends
    | finish delSubscript connFd events reached => cases appends

theorem LoopStep.reported (step : LoopStep server action after) (tables : Tables server)
    (attended : Attended server) {event : Event} (member : event ∈ after.loop.events)
    (live : event.fd ∈ after.live) : (after.conns (after.connAt event.fd)).ready = true := by
  rw [step.ready]
  cases step with
  | epollWait fds waits distinct pending =>
      obtain ⟨fd, listed, rfl⟩ := List.mem_map.mp member
      have connection : fd ≠ server.pool.mListenFd :=
        fun same => tables.listen_not_live (same ▸ live)
      have shown := pending fd listed
      rw [Server.pending, if_neg connection] at shown
      simp only [Bool.and_eq_true] at shown
      exact shown.2.2
  | acceptFailed event' events reached noHup listens =>
      exact attended.reported event (by rw [reached]; exact List.mem_cons_of_mem _ member) live
  | accept event' events connFd assigned rest reached noHup listens inside fresh unreserved waits
      unused =>
      have earlier : event ∈ server.loop.events := by
        rw [reached]
        exact List.mem_cons_of_mem _ member
      have open_ : event.fd ∈ server.live := by
        rcases tables.agenda.reported event earlier with open_ | ⟨listening, _⟩
        · exact open_
        · refine (List.mem_cons.mp live).resolve_left fun same => unreserved ?_
          rw [← same, listening]
          exact tables.listenReserved
      have other : event.fd ≠ connFd := fun same => fresh (same ▸ open_)
      dsimp only
      rw [Function.update_of_ne other]
      exact attended.reported event earlier open_
  | close event' events reached hup member' =>
      exact attended.reported event (by rw [reached]; exact List.mem_cons_of_mem _ member) live
  | recv event' events reached noHup member' =>
      exact attended.reported event (by rw [reached]; exact List.mem_cons_of_mem _ member) live
  | append adding appended events reached =>
      exact attended.reported event (by rw [reached]; exact member) live
  | clean delSubscript connFd events reached =>
      exact attended.reported event (by rw [reached]; exact member) live
  | finish delSubscript connFd events reached =>
      exact attended.reported event (by rw [reached]; exact member) (List.mem_of_mem_erase live)

theorem unread_of_same {taskId : Int} (unread : after.Unread taskId)
    (adds : after.loop.adds taskId = 0) (queue : after.mWorkqueue = server.mWorkqueue)
    (workers : after.workers = server.workers) : server.Unread taskId := by
  rcases unread with adding | queued | ⟨worker, wanted⟩
  · exact absurd adds adding
  · exact .inr (.inl (queue ▸ queued))
  · exact .inr (.inr ⟨worker, workers ▸ wanted⟩)

theorem LoopStep.unread (step : LoopStep server action after) (tables : Tables server)
    (single : OneByOne server) (attended : Attended server) {fd : Int} (live : fd ∈ after.live)
    (unread : after.Unread (after.pool.mReadyList fd)) :
    (after.conns (after.connAt fd)).ready = true := by
  rw [step.ready]
  cases step with
  | epollWait fds waits distinct pending =>
      exact attended.unread fd live (unread_of_same unread rfl rfl rfl)
  | acceptFailed event events reached noHup listens =>
      exact attended.unread fd live (unread_of_same unread rfl rfl rfl)
  | accept event events connFd assigned rest reached noHup listens inside fresh unreserved waits
      unused =>
      have before : server.Unread (Function.update server.pool.mReadyList connFd assigned fd) :=
        unread_of_same unread rfl rfl rfl
      rcases List.mem_cons.mp live with rfl | open_
      · rw [Function.update_self] at before
        obtain ⟨other, open_, ready, _⟩ := single.owned _ (underway_of_unread before)
        refine absurd ?_ (tables.books.not_free open_)
        rw [ready, unused]
        exact List.mem_cons_self ..
      · have other : fd ≠ connFd := fun same => fresh (same ▸ open_)
        rw [Function.update_of_ne other] at before
        dsimp only
        rw [Function.update_of_ne other]
        exact attended.unread fd open_ before
  | close event events reached hup member =>
      exact attended.unread fd live (unread_of_same unread rfl rfl rfl)
  | recv event events reached noHup member =>
      by_cases same : server.pool.mReadyList event.fd = server.pool.mReadyList fd
      · rw [tables.books.injective live member same.symm]
        exact attended.reported event (by rw [reached]; exact List.mem_cons_self ..) member
      · exact attended.unread fd live (unread_of_same unread (if_neg same) rfl rfl)
  | append adding appended events reached =>
      refine attended.unread fd live ?_
      rcases unread with adds | queued | reads
      · exact absurd rfl adds
      · dsimp only [enqueue] at queued
        split at queued
        · exact .inr (.inl queued)
        · rcases List.mem_append.mp queued with earlier | new
          · exact .inr (.inl earlier)
          · left
            rw [reached, List.mem_singleton.mp new]
            simp [Loop.adds]
      · exact .inr (.inr reads)
  | clean delSubscript connFd events reached =>
      exact attended.unread fd live (unread_of_same unread rfl rfl rfl)
  | finish delSubscript connFd events reached =>
      exact attended.unread fd (List.mem_of_mem_erase live) (unread_of_same unread rfl rfl rfl)

theorem LoopStep.attended (step : LoopStep server action after) (turns : TakesTurns server)
    (tables : Tables server) (single : OneByOne server) (prompt : Prompt server action)
    (attended : Attended server) : Attended after where
  asked := by
    intro taskId busy
    by_cases same : after.underway taskId = server.underway taskId
    · obtain ⟨message, member, task, asks⟩ := attended.asked taskId (same ▸ busy)
      exact ⟨message, step.mem_awaiting member, task, asks⟩
    · exact (step.request prompt same).2
  sending := by
    have slots : after.slots = server.slots := by cases step <;> rfl
    intro message frame member some_left
    rw [slots] at member
    obtain ⟨asks, served⟩ := attended.sending message frame member some_left
    refine ⟨asks, ?_⟩
    by_contra busy
    obtain ⟨⟨event, reported, live, ready⟩, _⟩ := step.request prompt (by rw [served]; exact busy)
    have awaits : message ∈ server.awaiting := List.mem_append_right _
      (List.mem_filterMap.mpr ⟨_, member, owing_sending.mpr ⟨some_left, rfl⟩⟩)
    exact turns.unreported tables awaits asks live ready (List.mem_map_of_mem reported)
  reported := fun _ member live => step.reported tables attended member live
  unread := fun _ live unread => step.unread tables single attended live unread

/-- The application keeps what is asked for and not served, and sends only what is served. -/
theorem Attended.of_app (attended : Attended server) (step : AppStep server action after)
    (asked : ∀ message ∈ server.awaiting, message.asks →
      server.underway message.taskId ≠ 0 → message ∈ after.awaiting)
    (sending : ∀ message frame, .sending message frame ∈ after.slots → frame.left ≠ 0 →
      message.asks ∧ server.underway message.taskId = 0) : Attended after := by
  obtain ⟨same, loop⟩ := step.sameTables
  have queue : after.mWorkqueue = server.mWorkqueue := by cases step <;> rfl
  have workers : after.workers = server.workers := by cases step <;> rfl
  have underway : ∀ taskId, after.underway taskId = server.underway taskId := by
    intro taskId
    rw [Server.underway, Server.underway, loop, queue, workers]
  have ready : ∀ conn, (after.conns conn).ready = (server.conns conn).ready := by
    intro conn
    obtain ⟨_, changed⟩ := step.conns conn
    rw [changed]
    rfl
  refine ⟨?_, ?_, ?_, ?_⟩
  · intro taskId busy
    rw [underway] at busy
    obtain ⟨message, member, task, asks⟩ := attended.asked taskId busy
    exact ⟨message, asked message member asks (task ▸ busy), task, asks⟩
  · intro message frame member some_left
    rw [underway]
    exact sending message frame member some_left
  · intro event member live
    rw [ready, same.connAt]
    exact attended.reported event (loop ▸ member) (same.live ▸ live)
  · intro fd live unread
    rw [ready, same.connAt]
    rw [same.ready] at unread
    refine attended.unread fd (same.live ▸ live) ?_
    rwa [Server.Unread, loop, queue, workers] at unread

/-- A slot whose message is served may go. -/
theorem mem_awaitingBut_of_served {slot : Nat} {held : Slot}
    (found : server.slots[slot]? = some held)
    (served : ∀ message, held.owing = some message → message.asks →
      server.underway message.taskId = 0)
    {message : Message Octet Cause} (member : message ∈ server.awaiting) (asks : message.asks)
    (busy : server.underway message.taskId ≠ 0) : message ∈ server.awaitingBut slot := by
  rcases List.mem_append.mp ((awaiting_perm found).mem_iff.mp member) with here | elsewhere
  · exact absurd (served message (Option.mem_toList.mp here) asks) busy
  · exact elsewhere

theorem mem_awaiting_set {slot : Nat} {held next : Slot} {message : Message Octet Cause}
    (found : server.slots[slot]? = some held) (member : message ∈ server.awaitingBut slot) :
    message ∈ server.pool.mUndoTasks ++ (server.slots.set slot next).filterMap Slot.owing := by
  rcases List.mem_append.mp member with queued | listed
  · exact List.mem_append_left _ queued
  · obtain ⟨other, stays, owes⟩ := List.mem_filterMap.mp listed
    exact List.mem_append_right _
      (List.mem_filterMap.mpr ⟨other, (mem_set_iff found).mpr (.inr stays), owes⟩)

theorem served_of_servedAt {slot : Nat} {message : Message Octet Cause}
    (held : server.slots[slot]? = some (.holding message)) (served : server.servedAt slot = true)
    (asks : message.asks) : server.underway message.taskId = 0 := by
  obtain ⟨conn, asked⟩ := asks
  simpa [Server.servedAt, held, asked, Cause.isClose] using served

theorem asks_of_mayPush {slot : Nat} {message : Message Octet Cause}
    (held : server.slots[slot]? = some (.holding message)) (may : server.mayPush slot = true) :
    message.asks := by
  simp only [Server.mayPush, held, Bool.and_eq_true, Bool.not_eq_true'] at may
  cases cause : message.cause with
  | read conn => exact ⟨conn, cause⟩
  | close conn =>
      rw [cause] at may
      cases may.1

theorem left_of_write? {slot count : Nat} {message : Message Octet Cause}
    {frame : SendFrame Octet} (sends : server.slots[slot]? = some (.sending message frame))
    (taken : server.write? slot (.wrote (count + 1)) = some after) : frame.left ≠ 0 := by
  cases writeStep_of_write? taken with
  | accepted other frame' count' found fits =>
      rw [sends] at found
      cases found
      omega
  | ended other frame' last found refused => cases refused

theorem attended_of_app (taken : server.step? action = some after)
    (step : AppStep server action after) (allowed : Patient server action)
    (attended : Attended server) : Attended after := by
  have held_served : ∀ {slot message}, server.slots[slot]? = some (.holding message) →
      server.servedAt slot = true → ∀ other, (Slot.holding message).owing = some other →
      other.asks → server.underway other.taskId = 0 := by
    intro slot message held served other owes asks
    cases owes
    exact served_of_servedAt held served asks
  have sent_served : ∀ {slot : Nat} {message : Message Octet Cause} {frame : SendFrame Octet},
      server.slots[slot]? = some (.sending message frame) →
      ∀ other, (Slot.sending message frame).owing = some other → other.asks →
      server.underway other.taskId = 0 := by
    intro slot message frame sends other owes _
    obtain ⟨some_left, rfl⟩ := owing_sending.mp owes
    exact (attended.sending _ _ (List.mem_of_getElem? sends) some_left).2
  have others : ∀ {slot : Nat} {message : Message Octet Cause} {frame : SendFrame Octet},
      Slot.sending message frame ∈ server.slots.eraseIdx slot → frame.left ≠ 0 →
      message.asks ∧ server.underway message.taskId = 0 :=
    fun member => attended.sending _ _ (List.mem_of_mem_eraseIdx member)
  refine attended.of_app step ?_ ?_
  · intro message member asks busy
    cases step with
    | pull pulled rest front =>
        simp only [Server.awaiting, front, List.mem_append, List.mem_cons,
          List.filterMap_append] at member ⊢
        rcases member with (rfl | queued) | held
        · exact .inr (.inr (by simp [Slot.owing]))
        · exact .inl queued
        · exact .inr (.inl held)
    | reply slot bytes holder taskId held through => exact member
    | replyClosed slot bytes => exact member
    | discard slot dropped held =>
        exact mem_awaitingBut_of_served held (held_served held allowed.2) member asks busy
    | pushNothing slot heap answered held =>
        exact mem_awaitingBut_of_served held (held_served held allowed.2) member asks busy
    | push slot heap answered frame held reply =>
        exact mem_awaiting_set held
          (mem_awaitingBut_of_served held (held_served held allowed.2) member asks busy)
    | write slot count answered frame sends =>
        exact mem_awaiting_set sends
          (mem_awaitingBut_of_served sends (sent_served sends) member asks busy)
    | writeEnd slot last answered frame sends =>
        exact mem_awaitingBut_of_served sends (sent_served sends) member asks busy
  · intro message frame member some_left
    cases step with
    | pull pulled rest front =>
        rcases List.mem_append.mp member with earlier | new
        · exact attended.sending message frame earlier some_left
        · cases List.mem_singleton.mp new
    | reply slot bytes holder taskId held through =>
        exact attended.sending message frame member some_left
    | replyClosed slot bytes => exact attended.sending message frame member some_left
    | discard slot dropped held => exact others member some_left
    | pushNothing slot heap answered held => exact others member some_left
    | push slot heap answered frame' held reply =>
        rcases (mem_set_iff held).mp member with same | stays
        · cases same
          have asks := asks_of_mayPush held (allowed.1 rfl)
          exact ⟨asks, served_of_servedAt held allowed.2 asks⟩
        · exact others stays some_left
    | write slot count answered frame' sends =>
        rcases (mem_set_iff sends).mp member with same | stays
        · cases same
          exact attended.sending _ _ (List.mem_of_getElem? sends) (left_of_write? sends taken)
        · exact others stays some_left
    | writeEnd slot last answered frame' sends => exact others member some_left

/-! ## Every run -/

theorem attended_init (mListenFd mEpollFd : Int) (reserved : List Int) (block : Nat → Octet) :
    Attended (Server.init mListenFd mEpollFd reserved block) where
  asked := by
    intro taskId busy
    have idle : total (Reader.worksOn taskId) (fun _ : Fin threadNumber => Reader.idle) = 0 :=
      total_eq_zero fun _ => rfl
    exact absurd (by simpa [Server.underway, Server.init, Loop.adds] using idle) busy
  sending := fun _ _ none => by cases none
  reported := fun _ none => by cases none
  unread := fun _ none => by cases none

/-- Patience is enough for the workers to keep up, whatever else a guard asks for. -/
theorem reachable_attended {Guard : Server → Action → Prop}
    (patient : ∀ before action, Guard before action → Patient before action)
    (reached : Net.server.ReachableUnder Guard server) :
    Net.server.ReachableUnder (fun before action =>
      InTurn before action ∧ Prompt before action ∧ Guard before action) server ∧
      Attended server := by
  induction reached with
  | start started =>
      refine ⟨.start started, ?_⟩
      obtain ⟨mListenFd, mEpollFd, reserved, block, _, _, _, rfl⟩ := started
      exact attended_init mListenFd mEpollFd reserved block
  | step earlier allowed taken ih =>
      obtain ⟨inTime, attended⟩ := ih
      have tables := reachable_tables earlier.reachable
      have turns := reachable_takesTurns (inTime.mono fun _ _ => And.left)
      have single := reachable_oneByOne (inTime.mono fun _ _ both => both.2.1)
      have patience := patient _ _ allowed
      have inTurn := patience.inTurn (single.room tables)
      have prompt := attended.prompt turns tables single patience taken
      refine ⟨inTime.step ⟨inTurn, prompt, allowed⟩ taken, ?_⟩
      cases serverStep_of_step? tables taken with
      | peer step => exact step.attended attended
      | loop step => exact step.attended turns tables single prompt attended
      | worker step => exact step.attended turns tables single attended
      | app step => exact attended_of_app taken step patience attended

/--
When clients take turns and the application waits for the workers, the workers keep up at any
pace of the threads: the state is one of a run in which they do, the work queue has no more
requests than there are tasks, no event is in hand for a connection that has a request under way,
and no `read` of a worker finds nothing.
-/
theorem patience_keeps_up (reached : Net.server.ReachableUnder Patient server) :
    Net.server.ReachableUnder (fun before action => InTurn before action ∧ Prompt before action)
      server ∧
      server.mWorkqueue.length ≤ maxTask ∧
      (∀ event ∈ server.loop.events, event.fd ∈ server.live →
        server.underway (server.pool.mReadyList event.fd) = 0) ∧
      ∀ worker, server.read? worker .eagain = none := by
  obtain ⟨inTime, attended⟩ := reachable_attended (fun _ _ => id) reached
  have tables := reachable_tables reached.reachable
  have turns := reachable_takesTurns (inTime.mono fun _ _ => And.left)
  have single := reachable_oneByOne (inTime.mono fun _ _ both => both.2.1)
  refine ⟨inTime.mono fun _ _ both => ⟨both.1, both.2.1⟩, single.length_mWorkqueue tables, ?_,
    attended.not_eagain tables single⟩
  intro event member live
  by_contra busy
  exact attended.unreported turns tables live busy (List.mem_map_of_mem member)

/-- A client asks, waits for the answer and asks again. -/
def askedAgain : List Action :=
  letIn 5 ++ ask 0 5 [65] ++ serve 0 1 ++ [.pull] ++ answer [49] 1 ++
    [.arrive 0 [66], .epollWait [5]]

theorem patience_keeps_up_again :
    ∃ server, Net.server.ReachableUnder Patient server ∧
      (∃ event ∈ server.loop.events, event.fd = 5 ∧ 5 ∈ server.live) ∧
      server.underway (server.pool.mReadyList 5) = 0 := by
  obtain ⟨last, reached, ended⟩ := Machine.exists_reachableUnder_of_follow
    Net.server Patient askedAgain
    (fun server => decide ((∃ event ∈ server.loop.events, event.fd = 5) ∧ 5 ∈ server.live))
    start_started (by decide)
  obtain ⟨⟨event, member, same⟩, live⟩ := of_decide_eq_true ended
  have served := (patience_keeps_up reached).2.2.1 event member (same ▸ live)
  exact ⟨last, reached, ⟨event, member, same, live⟩, same ▸ served⟩

end LibNet.Net
