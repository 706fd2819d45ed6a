import LibNet.Net.ServerMessages
import LibNet.Runs.Recording

/-!
# One message for each event, in order

`epoll_wait` reports events in an array, the event loop works it off from the front, and
each connection in it comes to one message: at once for a read event, at the end of
`close_connect` for a hang-up.  While the array is worked off connections are accepted and
closed, and descriptors change hands; the events left in it still mean the connections they
were reported for.
-/

namespace LibNet.Net

open LibNet.Runs
open LibNet.Base

variable {server after : Server} {action : Action}

/-- The message an event asks for; one of the listening socket asks for none. -/
def Server.asks (server : Server) (event : Event) : Option Cause :=
  if event.hup then some (.close (server.connAt event.fd))
  else if event.fd = server.pool.mListenFd then none
  else some (.read (server.connAt event.fd))

/-- What a step has `epoll_wait` report. -/
def Server.reports (server : Server) : Action → List Cause
  | .epollWait fds => (fds.map server.event).filterMap server.asks
  | _ => []

/-- The message `close_connect` is about to make. -/
def Server.closes (server : Server) : List Cause :=
  server.loop.closing.toList.map fun fd => .close (server.connAt fd)

/-- The messages that are still to come for events already reported. -/
def Server.due (server : Server) : List Cause :=
  server.closes ++ server.loop.events.filterMap server.asks

/-- The messages made so far, by what they were made for. -/
def Server.made (server : Server) : List Cause := server.queued.map Message.cause

/-- Nothing becomes due without the event loop. -/
theorem SameTables.due (same : SameTables server after) (loop : after.loop = server.loop) :
    after.due = server.due := by
  have asks : after.asks = server.asks := by
    funext event
    simp only [Server.asks, same.connAt, same.listenFd]
  simp only [Server.due, Server.closes, asks, loop, same.connAt]

/-- A descriptor that is given out anew is in no event that is left. -/
theorem asks_accept {events : List Event} {connFd : Int} {conn : Nat} {accepting : Server}
    (reported : ∀ event ∈ events,
      event.fd ∈ server.live ∨ event.fd = server.pool.mListenFd ∧ event.hup = false)
    (fresh : connFd ∉ server.live) (notListen : connFd ≠ server.pool.mListenFd)
    (listenFd : accepting.pool.mListenFd = server.pool.mListenFd)
    (connAt : accepting.connAt = Function.update server.connAt connFd conn) :
    events.filterMap accepting.asks = events.filterMap server.asks := by
  refine List.filterMap_congr fun event member => ?_
  have other : event.fd ≠ connFd := by
    rcases reported event member with live | ⟨listens, _⟩
    · exact fun same => fresh (same ▸ live)
    · exact fun same => notListen (same ▸ listens)
  simp only [Server.asks, listenFd, connAt, Function.update_of_ne other]

/-- A step that reports nothing moves messages from those due to those made. -/
theorem due_of_made (more : List Cause) (nothing : server.reports action = [])
    (made : after.made = server.made ++ more) (due : server.due = more ++ after.due) :
    after.made ++ after.due = server.made ++ server.due ++ server.reports action := by
  rw [nothing, made, due, List.append_nil, List.append_assoc]

/-- A message that is queued is one more message made. -/
theorem made_append {message : Message Octet Cause} {cause : Cause}
    (pulled : after.pulled = server.pulled)
    (undo : after.pool.mUndoTasks = server.pool.mUndoTasks ++ [message])
    (for_ : message.cause = cause) : after.made = server.made ++ [cause] := by
  simp only [Server.made, Server.queued, pulled, undo, for_, List.map_append, List.map_cons,
    List.map_nil, List.append_assoc]

theorem LoopStep.due (step : LoopStep server action after) (tables : Tables server) :
    after.made ++ after.due = server.made ++ server.due ++ server.reports action := by
  cases step with
  | epollWait fds waits distinct pending =>
      have nothing : server.due = [] := by
        simp [Server.due, Server.closes, waits, Loop.closing, Loop.events]
      rw [nothing, List.append_nil]
      rfl
  | acceptFailed event events reached noHup listens =>
      have skipped : server.due = events.filterMap server.asks := by
        simp [Server.due, Server.closes, reached, Loop.closing, Loop.events, Server.asks, noHup,
          listens]
      exact due_of_made [] rfl (List.append_nil _).symm skipped
  | accept event events connFd taskId rest reached noHup listens inside fresh unreserved waits
      free =>
      have skipped : server.due = events.filterMap server.asks := by
        simp [Server.due, Server.closes, reached, Loop.closing, Loop.events, Server.asks, noHup,
          listens]
      have notListen : connFd ≠ server.pool.mListenFd :=
        fun same => unreserved (same ▸ tables.listenReserved)
      have left : ∀ event ∈ events,
          event.fd ∈ server.live ∨ event.fd = server.pool.mListenFd ∧ event.hup = false :=
        fun event member => tables.agenda.reported event
          (by rw [reached]; exact List.mem_cons_of_mem _ member)
      refine due_of_made [] rfl (List.append_nil _).symm (skipped.trans ?_)
      exact Eq.symm (asks_accept left fresh notListen rfl rfl)
  | close event events reached hup member =>
      have front : server.due =
          .close (server.connAt event.fd) :: events.filterMap server.asks := by
        simp [Server.due, Server.closes, reached, Loop.closing, Loop.events, Server.asks, hup]
      exact due_of_made [] rfl (List.append_nil _).symm front
  | recv event events reached noHup member =>
      have connection : event.fd ≠ server.pool.mListenFd :=
        fun same => tables.listen_not_live (same ▸ member)
      have front : server.due = .read (server.connAt event.fd) :: events.filterMap server.asks := by
        simp [Server.due, Server.closes, reached, Loop.closing, Loop.events, Server.asks, noHup,
          connection]
      exact due_of_made [_] rfl (made_append rfl rfl rfl) front
  | append taskId fd events reached =>
      have same : server.due = events.filterMap server.asks := by
        simp [Server.due, Server.closes, reached, Loop.closing, Loop.events]
      exact due_of_made [] rfl (List.append_nil _).symm same
  | clean delSubscript connFd events reached =>
      have same : server.due =
          .close (server.connAt connFd) :: events.filterMap server.asks := by
        simp [Server.due, Server.closes, reached, Loop.closing, Loop.events]
      exact due_of_made [] rfl (List.append_nil _).symm same
  | finish delSubscript connFd events reached =>
      have front : server.due =
          .close (server.connAt connFd) :: events.filterMap server.asks := by
        simp [Server.due, Server.closes, reached, Loop.closing, Loop.events]
      exact due_of_made [_] rfl (made_append rfl rfl rfl) front

theorem ServerStep.due (step : ServerStep server action after) (tables : Tables server) :
    after.made ++ after.due = server.made ++ server.due ++ server.reports action := by
  cases step with
  | loop step => exact step.due tables
  | peer step =>
      rw [Server.made, Server.made, step.queued, step.sameTables.1.due step.sameTables.2]
      cases step <;> exact (List.append_nil _).symm
  | worker step =>
      rw [Server.made, Server.made, step.queued, step.sameTables.1.due step.sameTables.2]
      cases step <;> exact (List.append_nil _).symm
  | app step =>
      rw [Server.made, Server.made, step.queued, step.sameTables.1.due step.sameTables.2]
      cases step <;> exact (List.append_nil _).symm

/-- Runs of the server with the connection events that `epoll_wait` has reported. -/
def reportingServer : Machine (Server × List Cause) Action := Net.server.recording Server.reports

/-- What was made and what is due, against what was reported. -/
def Follows (server : Server) (reported : List Cause) : Prop :=
  server.made ++ server.due = reported

/--
In every state a run reaches, the messages made so far and those still due for the events in
hand are, in this order, the connection events `epoll_wait` has reported: one message for each,
of its kind and for its connection.  So the application pulls them in the order of the reports,
and none is missing whenever the event loop is back in `epoll_wait`.
-/
theorem messages_follow_events {reported : List Cause}
    (reached : reportingServer.Reachable (server, reported)) :
    server.queued.map Message.cause ++ server.due = reported ∧
    server.pulled.map Message.cause <+: reported ∧
    (server.loop = .handle [] → server.queued.map Message.cause = reported) := by
  have follows : Follows server reported := by
    refine Machine.ReachableUnder.record_invariant (fun _ _ => True) ?_ ?_ reached
    · rintro first ⟨mListenFd, mEpollFd, reserved, block, _, _, _, rfl⟩
      rfl
    · intro before action after record earlier holds _ taken
      have tables := reachable_tables earlier
      rw [Follows, (serverStep_of_step? tables taken).due tables, holds]
  refine ⟨follows, ?_, ?_⟩
  · refine ⟨server.pool.mUndoTasks.map Message.cause ++ server.due, ?_⟩
    rw [← List.append_assoc, ← List.map_append]
    exact follows
  · intro waits
    have nothing : server.due = [] := by
      simp [Server.due, Server.closes, waits, Loop.closing, Loop.events]
    rw [Follows, nothing, List.append_nil] at follows
    exact follows

/-- Two clients; the second is reported first and the first has reset its connection.  The
loop has come half way through `close_connect`. -/
def reportedTwice : List Action :=
  letIn 5 ++ letIn 6 ++ [.arrive 1 [66], .peerReset 0, .epollWait [6, 5], .loop, .loop, .loop]

theorem messages_follow_events_twice :
    ∃ server, reportingServer.Reachable (server, [.read 1, .close 0]) ∧
      server.queued.map Message.cause ++ server.due = [.read 1, .close 0] := by
  obtain ⟨⟨last, reported⟩, reached, ended⟩ := Machine.exists_reachableUnder_of_follow
    reportingServer (fun _ _ => True) reportedTwice
    (fun recorded => decide (recorded.2 = [.read 1, .close 0]))
    (show reportingServer.Start (.started, []) from ⟨start_started, rfl⟩) (by decide)
  cases of_decide_eq_true ended
  exact ⟨last, reached, (messages_follow_events reached).1⟩

end LibNet.Net
