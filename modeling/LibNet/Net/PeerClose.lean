import LibNet.Net.ServerRuns

/-!
# What becomes of a connection whose peer has closed

A worker that reads the end of a stream returns -1 from `recv_buf`, and `process`
drops it; `recv_msg`, whose result decides about closing, always returns 0.  The
connection stays open and keeps its task.  It is closed only when epoll reports a
hang-up of it as well.
-/

namespace LibNet.Net

open LibNet.Runs
open LibNet.Base

variable {server after : Server} {action : Action}

/-- A hang-up of the connection is pending, among the events still to be handled,
or being handled. -/
def HangUpUnderWay (server : Server) (fd : Int) : Prop :=
  ((server.conns (server.connAt fd)).hup = true ∧
    (server.conns (server.connAt fd)).edge = true) ∨
  ⟨fd, true⟩ ∈ server.loop.events ∨ server.loop.closing = some fd

instance (server : Server) (fd : Int) : Decidable (HangUpUnderWay server fd) :=
  inferInstanceAs (Decidable (_ ∨ _ ∨ _))

/-- The task for which the step reads an end. -/
def Server.endRead (server : Server) : Action → Option Int
  | .read worker .eof => (server.workers worker).wants
  | _ => none

/-- The end of a connection is read only while a hang-up of it is under way. -/
def EndsWithHangUp (server : Server) (action : Action) : Prop :=
  ∀ taskId ∈ server.endRead action, (server.task taskId).mSocket ∈ server.live →
    HangUpUnderWay server (server.task taskId).mSocket

instance (server : Server) (action : Action) : Decidable (EndsWithHangUp server action) :=
  inferInstanceAs (Decidable (∀ _ ∈ _, _ → _))

structure EndsClosed (server : Server) : Prop where
  fresh : ∀ conn, server.accepted ≤ conn → (server.conns conn).sawEof = false
  closing : ∀ fd ∈ server.live, (server.conns (server.connAt fd)).sawEof = true →
    HangUpUnderWay server fd

/-- Steps that leave the tables and the event loop alone. -/
theorem EndsClosed.transport (ends : EndsClosed server) (same : SameTables server after)
    (loop : after.loop = server.loop)
    (sawEof : ∀ conn, (after.conns conn).sawEof = (server.conns conn).sawEof)
    (kept : ∀ conn, (server.conns conn).hup = true ∧ (server.conns conn).edge = true →
      (after.conns conn).hup = true ∧ (after.conns conn).edge = true) : EndsClosed after where
  fresh := by
    intro conn unaccepted
    rw [sawEof]
    exact ends.fresh conn (same.accepted ▸ unaccepted)
  closing := by
    intro fd live ended
    rw [same.connAt, sawEof] at ended
    unfold HangUpUnderWay
    rw [same.connAt, loop]
    exact (ends.closing fd (same.live ▸ live) ended).imp_left (kept _)

theorem PeerStep.endsClosed (step : PeerStep server action after) (ends : EndsClosed server) :
    EndsClosed after := by
  obtain ⟨same, loop⟩ := step.sameTables
  refine ends.transport same loop (fun conn => ?_) fun conn raised => ?_
  · obtain ⟨_, _, _, _, changed⟩ := step.conns conn
    rw [changed]
  · rcases step.edge conn with unchanged | ⟨edge, hup⟩
    · rwa [unchanged]
    · exact ⟨hup raised.1, edge⟩

theorem AppStep.endsClosed (step : AppStep server action after) (ends : EndsClosed server) :
    EndsClosed after := by
  obtain ⟨same, loop⟩ := step.sameTables
  refine ends.transport same loop (fun conn => ?_) fun conn raised => ?_
  · obtain ⟨_, changed⟩ := step.conns conn
    rw [changed]
  · obtain ⟨_, changed⟩ := step.conns conn
    rwa [changed]

/-- An end is seen by the worker that reads it. -/
theorem WorkerStep.sawEof (step : WorkerStep server action after) (conn : Nat) :
    (after.conns conn).sawEof = (server.conns conn).sawEof ∨
      ∃ taskId ∈ server.endRead action, (server.task taskId).mSocket ∈ server.live ∧
        server.connAt (server.task taskId).mSocket = conn := by
  cases step with
  | data worker count taskId length fd other reads socket member opened positive available fits
      representable =>
      refine .inl (update_field Conn.sawEof ?_ conn)
      rfl
  | eof worker taskId length fd other reads socket member opened empty =>
      by_cases same : conn = other
      · subst same socket
        exact .inr ⟨taskId, by simp [Server.endRead, reads, Reader.wants], member, opened⟩
      · simp [Server.setConn, Server.setWorker, Function.update_of_ne same]
  | _ => exact .inl rfl

theorem WorkerStep.endsClosed (step : WorkerStep server action after) (tables : Tables server)
    (ends : EndsClosed server) (allowed : EndsWithHangUp server action) : EndsClosed after := by
  obtain ⟨same, loop⟩ := step.sameTables
  have underWay : ∀ fd, HangUpUnderWay server fd → HangUpUnderWay after fd := by
    intro fd hanging
    obtain ⟨_, _, _, changed⟩ := step.conns (server.connAt fd)
    unfold HangUpUnderWay
    rw [same.connAt, changed, loop]
    exact hanging
  refine ⟨fun conn unaccepted => ?_, fun fd live ended => ?_⟩
  · rw [same.accepted] at unaccepted
    rcases step.sawEof conn with unchanged | ⟨taskId, _, live, opened⟩
    · rw [unchanged]
      exact ends.fresh conn unaccepted
    · have known := tables.known _ live
      omega
  · rw [same.live] at live
    rw [same.connAt] at ended
    rcases step.sawEof (server.connAt fd) with unchanged | ⟨taskId, read, open_, opened⟩
    · rw [unchanged] at ended
      exact underWay fd (ends.closing fd live ended)
    · have socket := tables.connInjective _ open_ fd live opened
      exact underWay fd (socket ▸ allowed taskId read open_)

/-- Handling an event that is no hang-up leaves the hang-ups in place. -/
theorem mem_events_of_noHup {fd : Int} {event : Event} {events : List Event}
    (noHup : event.hup = false) (listed : ⟨fd, true⟩ ∈ event :: events) :
    (⟨fd, true⟩ : Event) ∈ events := by
  rcases List.mem_cons.mp listed with rfl | later
  · cases noHup
  · exact later

theorem LoopStep.hangUpUnderWay (step : LoopStep server action after) (tables : Tables server)
    {fd : Int} (live : fd ∈ server.live) (stays : fd ∈ after.live)
    (hanging : HangUpUnderWay server fd) : HangUpUnderWay after fd := by
  cases step with
  | epollWait fds waits distinct pending =>
      unfold HangUpUnderWay at hanging
      rw [waits] at hanging
      rcases hanging with ⟨hup, edge⟩ | listed | closes
      · by_cases reported : fd ∈ fds
        · refine .inr (.inl (List.mem_map.mpr ⟨fd, reported, ?_⟩))
          have connection : fd ≠ server.pool.mListenFd :=
            fun same => tables.listen_not_live (same ▸ live)
          simp [Server.event, hup, connection]
        · left
          dsimp only
          rw [if_neg (tables.unreported pending live reported)]
          exact ⟨hup, edge⟩
      · cases listed
      · cases closes
  | acceptFailed event events reached noHup listens =>
      unfold HangUpUnderWay at hanging
      rw [reached] at hanging
      exact hanging.imp_right (.imp_left (mem_events_of_noHup noHup))
  | accept event events connFd taskId rest reached noHup listens inside fresh unreserved waits
      free =>
      have different : fd ≠ connFd := fun same => fresh (same ▸ live)
      have other : server.connAt fd ≠ server.accepted := Nat.ne_of_lt (tables.known fd live)
      unfold HangUpUnderWay at hanging ⊢
      rw [reached] at hanging
      simp only [Function.update_of_ne different, Function.update_of_ne other]
      exact hanging.imp_right (.imp_left (mem_events_of_noHup noHup))
  | close event events reached hup member =>
      unfold HangUpUnderWay at hanging
      rw [reached] at hanging
      rcases hanging with raised | listed | closes
      · exact .inl raised
      · rcases List.mem_cons.mp listed with rfl | later
        · exact .inr (.inr rfl)
        · exact .inr (.inl later)
      · cases closes
  | recv event events reached noHup member =>
      unfold HangUpUnderWay at hanging
      rw [reached] at hanging
      exact hanging.imp_right (.imp_left (mem_events_of_noHup noHup))
  | append taskId other events reached =>
      unfold HangUpUnderWay at hanging
      rw [reached] at hanging
      exact hanging
  | clean delSubscript connFd events reached =>
      unfold HangUpUnderWay at hanging
      rw [reached] at hanging
      exact hanging
  | finish delSubscript connFd events reached =>
      unfold HangUpUnderWay at hanging
      rw [reached] at hanging
      refine hanging.imp_right (.imp_right fun closes => ?_)
      cases closes
      exact ((tables.books.distinct.mem_erase_iff.mp stays).1 rfl).elim

theorem LoopStep.endsClosed (step : LoopStep server action after) (tables : Tables server)
    (ends : EndsClosed server) : EndsClosed after := by
  have sawEof : ∀ conn, (after.conns conn).sawEof = (server.conns conn).sawEof := by
    intro conn
    obtain ⟨_, changed⟩ := step.conns conn
    rw [changed]
  have accepted : server.accepted ≤ after.accepted := by
    cases step with
    | accept => exact Nat.le_succ _
    | _ => exact Nat.le_refl _
  refine ⟨fun conn unaccepted => ?_, fun fd stays ended => ?_⟩
  · rw [sawEof]
    exact ends.fresh conn (Nat.le_trans accepted unaccepted)
  · rw [sawEof] at ended
    -- A connection that has just been accepted has not ended.
    have before : fd ∈ server.live ∧ after.connAt fd = server.connAt fd := by
      cases step with
      | accept event events connFd taskId rest reached noHup listens inside fresh unreserved
          waits free =>
          rcases List.mem_cons.mp stays with rfl | old
          · simp only [Function.update_self] at ended
            rw [ends.fresh server.accepted (Nat.le_refl _)] at ended
            cases ended
          · have different : fd ≠ connFd := fun same => fresh (same ▸ old)
            exact ⟨old, Function.update_of_ne different ..⟩
      | finish delSubscript connFd events reached => exact ⟨List.mem_of_mem_erase stays, rfl⟩
      | _ => exact ⟨stays, rfl⟩
    rw [before.2] at ended
    exact step.hangUpUnderWay tables before.1 stays (ends.closing fd before.1 ended)

theorem reachable_endsClosed
    (reached : Net.server.ReachableUnder EndsWithHangUp server) : EndsClosed server := by
  refine server_invariant ?_ ?_ reached
  · intro mListenFd mEpollFd reserved block
    exact ⟨fun _ _ => rfl, fun _ member => by cases member⟩
  · intro before action after earlier ends allowed step
    have tables := reachable_tables earlier
    cases step with
    | peer step => exact step.endsClosed ends
    | loop step => exact step.endsClosed tables ends
    | worker step => exact step.endsClosed tables ends allowed
    | app step => exact step.endsClosed ends

/-! ## States at rest -/

/-- The event loop is about to block in `epoll_wait` with nothing to report, and
the thread pool is idle. -/
def AtRest (server : Server) : Prop :=
  server.loop.events = [] ∧ server.loop.handling = none ∧
    (∀ fd ∈ server.pool.mListenFd :: server.live, server.pending fd = false) ∧
    server.mWorkqueue = [] ∧ ∀ worker, server.workers worker = .idle

instance (server : Server) : Decidable (AtRest server) :=
  inferInstanceAs (Decidable (_ ∧ _ ∧ _ ∧ _ ∧ _))

/-- At rest no hang-up is under way. -/
theorem not_hangUpUnderWay_of_atRest (tables : Tables server) (rest : AtRest server) {fd : Int}
    (live : fd ∈ server.live) : ¬ HangUpUnderWay server fd := by
  obtain ⟨events, handling, quiet, _⟩ := rest
  rintro (⟨hup, edge⟩ | listed | closes)
  · have connection : fd ≠ server.pool.mListenFd :=
      fun same => tables.listen_not_live (same ▸ live)
    have silent := quiet fd (List.mem_cons_of_mem _ live)
    simp [Server.pending, connection, live, edge, Conn.ready, hup] at silent
  · rw [events] at listed
    cases listed
  · obtain ⟨taskId, handles⟩ := Loop.handling_of_closing closes
    rw [handling] at handles
    cases handles

/--
In runs that read the end of a connection only while a hang-up of it is under
way, a server at rest has closed every connection whose end it has read: no open
descriptor belongs to one, and every id that is not free is held by another
connection.
-/
theorem ended_connections_closed
    (reached : Net.server.ReachableUnder EndsWithHangUp server) (rest : AtRest server)
    (conn : Nat) (ended : (server.conns conn).sawEof = true) :
    (∀ fd ∈ server.live, server.connAt fd ≠ conn) ∧
    ∀ taskId, InRange taskId → taskId ∉ server.pool.mFreeTasks →
      ∃ fd ∈ server.live, server.pool.mReadyList fd = taskId ∧ server.connAt fd ≠ conn := by
  have tables := reachable_tables reached.reachable
  have closed : ∀ fd ∈ server.live, server.connAt fd ≠ conn := by
    rintro fd live rfl
    exact not_hangUpUnderWay_of_atRest tables rest live
      ((reachable_endsClosed reached).closing fd live ended)
  refine ⟨closed, ?_⟩
  intro taskId inside lent
  obtain ⟨fd, live, listed⟩ := tables.books.exists_holder inside lent
  exact ⟨fd, live, listed, closed fd live⟩

/-- A client closes and resets at once; the worker reads the end, and the loop
handles the hang-up. -/
def endedWithReset : List Action :=
  letIn 5 ++ [.peerClose 0, .epollWait [5], .loop, .loop, .peerReset 0, .take 0, .enter 0,
    .read 0 .eof, .epollWait [5], .loop, .loop, .loop]

theorem ended_connections_closed_with_reset :
    ∃ last, Net.server.ReachableUnder EndsWithHangUp last ∧ AtRest last ∧
      (last.conns 0).sawEof = true ∧ ∀ fd ∈ last.live, last.connAt fd ≠ 0 := by
  obtain ⟨last, reached, ended⟩ := Machine.exists_reachableUnder_of_follow Net.server
    EndsWithHangUp endedWithReset
    (fun last => decide (AtRest last ∧ (last.conns 0).sawEof = true))
    start_started (by decide)
  obtain ⟨rest, saw⟩ := of_decide_eq_true ended
  exact ⟨last, reached, rest, saw, (ended_connections_closed reached rest 0 saw).1⟩

/-- A client connects and closes in order, and the end is read. -/
def endedInOrder : List Action :=
  letIn 5 ++ [.peerClose 0, .epollWait [5], .loop, .loop, .take 0, .enter 0, .read 0 .eof]

/-- The server is at rest, and the connection is open and has its task. -/
theorem ended_connection_left_open :
    ∃ last, Net.server.Reachable last ∧ AtRest last ∧ (last.conns 0).sawEof = true ∧
      5 ∈ last.live ∧ last.connAt 5 = 0 ∧ (last.task 99).mSocket = 5 ∧
      99 ∉ last.pool.mFreeTasks := by
  obtain ⟨last, reached, ended⟩ := Machine.exists_reachableUnder_of_follow Net.server
    (fun _ _ => True) endedInOrder
    (fun last => decide (AtRest last ∧ (last.conns 0).sawEof = true ∧
      5 ∈ last.live ∧ last.connAt 5 = 0 ∧ (last.task 99).mSocket = 5 ∧
      99 ∉ last.pool.mFreeTasks))
    start_started (by decide)
  exact ⟨last, reached, of_decide_eq_true ended⟩

end LibNet.Net
